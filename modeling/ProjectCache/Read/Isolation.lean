import ProjectCache.Depot.Sequence
import ProjectCache.Read.Service

namespace Isolation

open Textual Nix Project Tables Store Db Programs Narinfo Depot Depot.Server SqliteDatabase

def Shows (view : DepotView) (p : ProjectRow) : Prop :=
  match view with
  | .aggregate => p.isPublic = true
  | .project slug => p.slug = slug

instance (view : DepotView) : DecidablePred (Shows view) := fun p => by
  unfold Shows
  cases view <;> infer_instance

def ShownId (view : DepotView) (db : Database) (id : Uuid) : Prop :=
  ∃ p ∈ db.projects.rows, p.id = id ∧ Shows view p

instance (view : DepotView) (db : Database) : DecidablePred (ShownId view db) := fun _ => by
  unfold ShownId
  infer_instance

def ShownPin (view : DepotView) (db : Database) (pin : PinRow) : Prop :=
  match view with
  | .aggregate => pin.projectId = none
  | .project _ => ∃ p ∈ db.projects.rows, pin.projectId = some p.id ∧ Shows view p

instance (view : DepotView) (db : Database) : DecidablePred (ShownPin view db) := fun pin => by
  unfold ShownPin
  cases view <;> infer_instance

def ShownBuild (view : DepotView) (db : Database) (id : Uuid) : Prop :=
  (∃ row ∈ db.builds.rows, row.id = id ∧ ShownId view db row.projectId) ∨
    ∃ ref ∈ db.projectRefs.rows, ref.buildId = id ∧ ShownId view db ref.projectId

instance (view : DepotView) (db : Database) : DecidablePred (ShownBuild view db) := fun _ => by
  unfold ShownBuild
  infer_instance

structure SamePaths (a b : Database) : Prop where
  pathInfos : a.pathInfos.Agree b.pathInfos (fun _ => True)
  pathObjects : a.pathObjects.Agree b.pathObjects (fun _ => True)
  storageObjects : a.storageObjects.Agree b.storageObjects (fun _ => True)

structure SameShown (view : DepotView) (a b : Database) : Prop where
  projects : a.projects.Agree b.projects (Shows view)
  refs : a.projectRefs.Agree b.projectRefs (fun ref => ShownId view a ref.projectId)
  builds : a.builds.Agree b.builds (fun row => ShownId view a row.projectId)
  buildPaths : a.buildPaths.Agree b.buildPaths (fun bp => ShownBuild view a bp.buildId)
  pins : a.pins.Agree b.pins (ShownPin view a)

variable {view : DepotView} {a b : Database} {h : StorePathHash}

theorem visiblePath_iff {db : Database} : db.visiblePath view h = true ↔
    (∃ ref ∈ db.projectRefs.rows, ShownId view db ref.projectId ∧
      ⟨ref.buildId, h⟩ ∈ db.buildPaths.rows) ∨
    ∃ pin ∈ db.pins.rows, ShownPin view db pin ∧ pin.storePathHash = h := by
  cases view with
  | aggregate =>
    simp [Database.visiblePath, Database.mem_aggregateVisiblePaths, ShownId, ShownPin, Shows]
  | project slug =>
    simp only [Database.visiblePath, List.any_eq_true, Bool.and_eq_true, decide_eq_true_eq,
      List.contains_iff_mem, Database.mem_projectVisiblePaths, ShownId, ShownPin, Shows]
    constructor
    · rintro ⟨p, hp, hs, ⟨ref, hr, hid, hb⟩ | ⟨pin, hpin, hid, hh, -⟩⟩
      · exact Or.inl ⟨ref, hr, ⟨p, hp, hid.symm, hs⟩, hb⟩
      · exact Or.inr ⟨pin, hpin, ⟨p, hp, hid, hs⟩, hh⟩
    · rintro (⟨ref, hr, ⟨p, hp, hid, hs⟩, hb⟩ | ⟨pin, hpin, ⟨p, hp, hid, hs⟩, hh⟩)
      · exact ⟨p, hp, hs, Or.inl ⟨ref, hr, hid.symm, hb⟩⟩
      · exact ⟨p, hp, hs, Or.inr ⟨pin, hpin, hid, hh, p, hp, rfl⟩⟩

namespace SameShown

variable (s : SameShown view a b)

include s

theorem shownId_iff (id : Uuid) : ShownId view a id ↔ ShownId view b id := by
  constructor
  · rintro ⟨p, hp, hid, hs⟩
    exact ⟨p, s.projects.1 p hp hs, hid, hs⟩
  · rintro ⟨p, hp, hid, hs⟩
    exact ⟨p, s.projects.2 p hp hs, hid, hs⟩

theorem shownPin_iff (pin : PinRow) : ShownPin view a pin ↔ ShownPin view b pin := by
  cases view with
  | aggregate => exact Iff.rfl
  | project slug =>
    constructor
    · rintro ⟨p, hp, hid, hs⟩
      exact ⟨p, s.projects.1 p hp hs, hid, hs⟩
    · rintro ⟨p, hp, hid, hs⟩
      exact ⟨p, s.projects.2 p hp hs, hid, hs⟩

theorem visibleRef_iff :
    (∃ ref ∈ a.projectRefs.rows, ShownId view a ref.projectId ∧
        ⟨ref.buildId, h⟩ ∈ a.buildPaths.rows) ↔
      ∃ ref ∈ b.projectRefs.rows, ShownId view b ref.projectId ∧
        ⟨ref.buildId, h⟩ ∈ b.buildPaths.rows := by
  constructor
  · rintro ⟨ref, hr, hs, hb⟩
    have hbuild : ShownBuild view a ref.buildId := Or.inr ⟨ref, hr, rfl, hs⟩
    exact ⟨ref, s.refs.1 ref hr hs, (s.shownId_iff _).mp hs, s.buildPaths.1 _ hb hbuild⟩
  · rintro ⟨ref, hr, hs, hb⟩
    have hsa := (s.shownId_iff _).mpr hs
    have hra := s.refs.2 ref hr hsa
    have hbuild : ShownBuild view a ref.buildId := Or.inr ⟨ref, hra, rfl, hsa⟩
    exact ⟨ref, hra, hsa, s.buildPaths.2 _ hb hbuild⟩

theorem visiblePin_iff :
    (∃ pin ∈ a.pins.rows, ShownPin view a pin ∧ pin.storePathHash = h) ↔
      ∃ pin ∈ b.pins.rows, ShownPin view b pin ∧ pin.storePathHash = h := by
  constructor
  · rintro ⟨pin, hp, hs, hh⟩
    exact ⟨pin, s.pins.1 pin hp hs, (s.shownPin_iff pin).mp hs, hh⟩
  · rintro ⟨pin, hp, hs, hh⟩
    have hsa := (s.shownPin_iff pin).mpr hs
    exact ⟨pin, s.pins.2 pin hp hsa, hsa, hh⟩

theorem visiblePath_eq (h : StorePathHash) : a.visiblePath view h = b.visiblePath view h := by
  rw [Bool.eq_iff_iff, visiblePath_iff, visiblePath_iff, s.visibleRef_iff, s.visiblePin_iff]

end SameShown

namespace SamePaths

variable (s : SamePaths a b)

include s

theorem pathInfo_eq (h : StorePathHash) : a.pathInfo h = b.pathInfo h := by
  refine Option.ext (fun pi => ?_)
  rw [Database.pathInfo_eq_some, Database.pathInfo_eq_some, s.pathInfos.mem_iff trivial]

theorem storageObjectVisibleInView_eq (hv : ∀ h, a.visiblePath view h = b.visiblePath view h)
    (o : Text) : a.storageObjectVisibleInView view o = b.storageObjectVisibleInView view o := by
  rw [Bool.eq_iff_iff]
  simp only [Database.storageObjectVisibleInView, List.any_eq_true, hv]
  exact exists_congr (fun po => and_congr_left (fun _ => s.pathObjects.mem_iff trivial))

end SamePaths

def SameAnswer (v w : World) (c : Call) : Prop :=
  ∀ e, (answer c e v).2 = (answer c e w).2 ∧ (answer c e v).1 = v ∧ (answer c e w).1 = w

variable {v w : World}

theorem sameAnswer_select {B : Type} {query : Database → B} (h : query v.db = query w.db) :
    SameAnswer v w (.select (fun _ db => query db)) := by
  intro e
  simp only [answer, Call.local, Bool.false_eq_true, if_false, carryOut, h]
  split <;> exact ⟨rfl, rfl, rfl⟩

theorem result_eq {A : Type} {p : Action A} (hp : p.Uses (SameAnswer v w)) (es : Nat → Env) :
    (machine.exec p es v).2 = (machine.exec p es w).2 := by
  refine Machine.exec_related (M := machine) (fun s t => s = v ∧ t = w) hp ?_ ⟨rfl, rfl⟩ es
  rintro c e _ _ hc ⟨rfl, rfl⟩
  exact hc e

theorem SamePaths.inflateOptional_uses (s : SamePaths v.db w.db) (row : Option PathInfoRow) :
    (inflateOptional row).Uses (SameAnswer v w) := by
  cases row with
  | none => trivial
  | some row =>
    refine Prog.Uses.bind ?_ (fun _ => trivial)
    refine (Prog.uses_perform (sameAnswer_select ?_)).bind (fun references => ?_)
    · simp only [Database.pathReferences, s.pathInfo_eq]
    refine (Prog.uses_perform (sameAnswer_select ?_)).bind (fun signatures => trivial)
    simp only [Database.pathSignatures, s.pathInfo_eq]

theorem getAggregateNarinfo_uses (s : SamePaths v.db w.db)
    (sv : SameShown .aggregate v.db w.db) (h : StorePathHash) :
    (getAggregateNarinfo h).Uses (SameAnswer v w) := by
  refine (Prog.uses_perform (sameAnswer_select ?_)).bind s.inflateOptional_uses
  simp only [Database.aggregatePathInfo, s.pathInfo_eq, sv.visiblePath_eq]

theorem getProjectNarinfo_uses {slug : ProjectSlug} (s : SamePaths v.db w.db)
    (sv : SameShown (.project slug) v.db w.db) (h : StorePathHash) :
    (getProjectNarinfo slug h).Uses (SameAnswer v w) := by
  refine (Prog.uses_perform (sameAnswer_select ?_)).bind s.inflateOptional_uses
  simp only [Database.projectPathInfo, s.pathInfo_eq, sv.visiblePath_eq]

theorem storageObjectVisibleInView_uses (s : SamePaths v.db w.db)
    (sv : SameShown view v.db w.db) (o : Text) :
    (storageObjectVisibleInView view o).Uses (SameAnswer v w) :=
  Prog.uses_perform (sameAnswer_select (s.storageObjectVisibleInView_eq sv.visiblePath_eq o))

theorem views_isolated (v w : World) (s : SamePaths v.db w.db) :
    (SameShown .aggregate v.db w.db → ∀ es,
      (∀ h, (machine.exec (getAggregateNarinfo h) es v).2 =
        (machine.exec (getAggregateNarinfo h) es w).2) ∧
      ∀ o, (machine.exec (storageObjectVisibleInView .aggregate o) es v).2 =
        (machine.exec (storageObjectVisibleInView .aggregate o) es w).2) ∧
    ∀ slug, SameShown (.project slug) v.db w.db → ∀ es,
      (∀ h, (machine.exec (getProjectNarinfo slug h) es v).2 =
        (machine.exec (getProjectNarinfo slug h) es w).2) ∧
      ∀ o, (machine.exec (storageObjectVisibleInView (.project slug) o) es v).2 =
        (machine.exec (storageObjectVisibleInView (.project slug) o) es w).2 := by
  refine ⟨fun sv es => ⟨fun h => ?_, fun o => ?_⟩, fun slug sv es => ⟨fun h => ?_, fun o => ?_⟩⟩
  · exact result_eq (getAggregateNarinfo_uses s sv h) es
  · exact result_eq (storageObjectVisibleInView_uses s sv o) es
  · exact result_eq (getProjectNarinfo_uses s sv h) es
  · exact result_eq (storageObjectVisibleInView_uses s sv o) es

section Examples

def midnight : SqliteTime := .whole (.newYear 2030 0)

def helloRow : PathInfoRow where
  storePathHash := helloHash
  storePath := helloPayload.storePath
  url := helloPayload.url
  compression := helloPayload.compression
  narHash := helloPayload.narHash
  narSize := helloPayload.narSize
  deriver := none
  ca := none
  references := []
  signatures := []

def mainBuild (id projectId : Uuid) : BuildRow :=
  ⟨id, projectId, "main".toList, none, .finalized, midnight, none⟩

def publicWorld : World where
  db := {
    projects := .single ⟨1, exampleSlug, "Example".toList, true, .main⟩
    pathInfos := .single helloRow
    builds := .single (mainBuild 3 1)
    buildPaths := .single ⟨3, helloHash⟩
    projectRefs := .single ⟨1, "main".toList, 3, midnight⟩
    pathObjects := .single ⟨helloHash, helloRow.url, .nar⟩ }
  blobs := fun _ _ => none

def secretSlug : ProjectSlug := ⟨"secret".toList, by decide⟩

def secretWorld : World :=
  { publicWorld with db := { publicWorld.db with
      projects := ⟨[⟨2, secretSlug, "Secret".toList, false, .main⟩,
        ⟨1, exampleSlug, "Example".toList, true, .main⟩], by decide⟩
      builds := ⟨[mainBuild 4 2, mainBuild 3 1], by decide⟩
      buildPaths := ⟨[⟨4, helloHash⟩, ⟨3, helloHash⟩], by decide⟩
      projectRefs := ⟨[⟨2, "main".toList, 4, midnight⟩, ⟨1, "main".toList, 3, midnight⟩],
        by decide⟩
      pins := .single ⟨.project 2, "kept".toList, some 2, helloHash, helloRow.storePath⟩ } }

theorem secret_unseen :
    (machine.exec (getAggregateNarinfo helloHash) moment publicWorld).2 =
      (machine.exec (getAggregateNarinfo helloHash) moment secretWorld).2 ∧
    (machine.exec (getProjectNarinfo exampleSlug helloHash) moment publicWorld).2 =
      (machine.exec (getProjectNarinfo exampleSlug helloHash) moment secretWorld).2 := by
  have hsame : SamePaths publicWorld.db secretWorld.db :=
    ⟨Table.agree_refl _ _, Table.agree_refl _ _, Table.agree_refl _ _⟩
  have hshown : ∀ view ∈ [.aggregate, .project exampleSlug],
      SameShown view publicWorld.db secretWorld.db := by
    intro view hv
    simp only [List.mem_cons, List.not_mem_nil, or_false] at hv
    rcases hv with rfl | rfl <;> exact ⟨by decide +kernel, by decide +kernel, by decide +kernel,
      by decide +kernel, by decide +kernel⟩
  obtain ⟨haggregate, hproject⟩ := views_isolated _ _ hsame
  exact ⟨(haggregate (hshown _ (by simp)) moment).1 helloHash,
    (hproject exampleSlug (hshown _ (by simp)) moment).1 helloHash⟩

end Examples

end Isolation
