import ProjectCache.Gc.Sweep
import ProjectCache.Publish.Publisher

namespace Collecting

open Textual Nix Project Calendar Tables Store Db Programs Ingest Depot Depot.Server
  SqliteDatabase Gc

@[reducible] def listing (g : Int) : Call := .select (fun now db => db.readyForDeletion g now)

def deleting (service : GcService) (ready : List (StorageId × Text)) : Action Response := do
  let deleted ← service.deleteReadyObjects ready
  deleteStorageObjects deleted
  return .ranGc (.of deleted)

def marking [WildMatch] : Action Unit := do
  clearDeletedStateForLiveStorageObjects
  markStaleStorageObjects

theorem program_runLocalGc [Base64] [WildMatch] (server : Server) (g : Int) :
    server.program (.runLocalGc false g) =
      marking.bind (fun _ => (listStorageObjectsReadyForDeletion g).bind
        (deleting server.gcService)) := by
  change (clearDeletedStateForLiveStorageObjects.bind (fun _ => markStaleStorageObjects.bind
    (fun _ => (listStorageObjectsReadyForDeletion g).bind (fun ready =>
      (server.gcService.deleteReadyObjects ready).bind (fun deleted =>
        (deleteStorageObjects deleted).bind (fun _ =>
          Prog.done (.ok (RunGcResponse.of deleted)))))))).bind
            (fun response => Prog.done (.ok (Response.ranGc response))) =
    (clearDeletedStateForLiveStorageObjects.bind (fun _ => markStaleStorageObjects)).bind _
  simp only [Prog.bind_assoc]
  rfl

def Marks (c : Call) : Prop :=
  c.LooksUp ∨ (∃ roots, c = .clearDeletedState roots) ∨ ∃ roots, c = .markStale roots

theorem marking_uses [WildMatch] : marking.Uses Marks := by
  have hroots : listRootStorePathHashes.Uses Marks :=
    looks_listRootStorePathHashes.uses.mono (fun _ h => Or.inl h)
  have hclear : clearDeletedStateForLiveStorageObjects.Uses Marks :=
    hroots.bind (fun roots => Prog.uses_perform (Or.inr (Or.inl ⟨roots, rfl⟩)))
  have hmark : markStaleStorageObjects.Uses Marks :=
    hroots.bind (fun roots => Prog.uses_perform (Or.inr (Or.inr ⟨roots, rfl⟩)))
  exact hclear.bind (fun _ => hmark)

inductive Removes : Call → StorageId × Text → Prop
  | object (storage : DepotStorage) (o : Text) :
    Removes (.deleteObject storage o) (storage.id, o)
  | row {objects : List (StorageId × Text)} {key : StorageId × Text} (h : key ∈ objects) :
    Removes (.deleteStorageObjects objects) key

def removed : Call → List (StorageId × Text)
  | .deleteObject storage o => [(storage.id, o)]
  | .deleteStorageObjects objects => objects
  | _ => []

theorem removes_of_mem {c : Call} {key : StorageId × Text} (h : key ∈ removed c) :
    Removes c key := by
  cases c with
  | deleteObject storage o =>
    obtain rfl := List.mem_singleton.mp h
    exact .object storage o
  | deleteStorageObjects objects => exact .row h
  | _ => cases h

theorem mem_removed {c : Call} {key : StorageId × Text} (h : Removes c key) : key ∈ removed c := by
  cases h with
  | object storage o => exact List.mem_singleton_self _
  | row hm => exact hm

theorem not_marks_removes {c : Call} {key : StorageId × Text} (h : Removes c key) : ¬ Marks c := by
  rintro (hl | ⟨roots, rfl⟩ | ⟨roots, rfl⟩)
  · cases h <;> cases hl
  · cases h
  · cases h

def DeletesObjectOf (ready : List (StorageId × Text)) (c : Call) : Prop :=
  ∃ storage o, c = .deleteObject storage o ∧ (storage.id, o) ∈ ready

theorem deleteReadyObjects_uses (service : GcService) {ready : List (StorageId × Text)}
    (keys : List (StorageId × Text)) (h : ∀ key ∈ keys, key ∈ ready) :
    (service.deleteReadyObjects keys).Uses (DeletesObjectOf ready) := by
  induction keys with
  | nil => trivial
  | cons key rest ih =>
    have hrest := ih (fun key hkey => h key (List.mem_cons_of_mem _ hkey))
    unfold GcService.deleteReadyObjects
    split
    · exact hrest
    · rename_i storage hs
      have hkey : (storage.id, key.2) ∈ ready := by
        rw [StorageCatalog.storage_id hs]
        exact h key List.mem_cons_self
      exact (Prog.uses_perform ⟨storage, key.2, rfl, hkey⟩).bind
        (fun _ => hrest.bind (fun _ => trivial))

theorem deleting_uses (service : GcService) (ready : List (StorageId × Text)) :
    (deleting service ready).Uses (fun c : Call => DeletesObjectOf ready c ∨
      ∃ objects, c = .deleteStorageObjects objects) :=
  ((deleteReadyObjects_uses service ready (fun _ h => h)).mono (fun _ => Or.inl)).bind
    (fun deleted => (Prog.uses_perform (Or.inr ⟨deleted, rfl⟩)).bind (fun _ => trivial))

section

variable {Q A : Type} {program : Q → Action A} {start : Pool machine Q A}
  {schedule : Pool.Schedule machine Q} {i m n : Nat}

theorem ran_deleteReadyObjects {service : GcService} {keys deleted : List (StorageId × Text)}
    (h : Pool.Ran program start schedule i m n (service.deleteReadyObjects keys)
      (.done (.ok deleted))) : ∀ key ∈ deleted, key ∈ keys := by
  induction keys generalizing m n deleted with
  | nil =>
    cases h
    simp
  | cons key rest ih =>
    unfold GcService.deleteReadyObjects at h
    split at h
    · exact fun key hkey => List.mem_cons_of_mem _ (ih h key hkey)
    · obtain ⟨k₁, u, -, h₁⟩ := Pool.Ran.finished h
      obtain ⟨k₂, others, h₂, h₃⟩ := Pool.Ran.finished h₁
      cases h₃
      intro key' hkey
      rcases List.mem_cons.mp hkey with rfl | hkey
      · exact List.mem_cons_self
      · exact List.mem_cons_of_mem _ (ih h₂ key' hkey)

theorem ran_deleting {service : GcService} {ready : List (StorageId × Text)} {c : Call}
    {resume : Except Error c.Reply → Action Response} {key : StorageId × Text}
    (h : Pool.Ran program start schedule i m n (deleting service ready) (.call c resume))
    (hc : Removes c key) : key ∈ ready := by
  cases hc with
  | object storage o =>
    rcases (h.uses (deleting_uses service ready)).1 with ⟨storage', o', heq, hmem⟩ | ⟨objects, heq⟩
    · cases heq
      exact hmem
    · cases heq
  | @row objects key hkey =>
    obtain ⟨k, deleted, h₁, h₂⟩ := Pool.Ran.after h
      (deleteReadyObjects_uses service ready (fun _ h => h)) (by rintro ⟨_, _, heq, -⟩; cases heq)
    refine ran_deleteReadyObjects h₁ key ?_
    cases h₂ with
    | stay => exact hkey
    | call r hmk hh hrest =>
      cases r with
      | ok u => cases hrest
      | error x => cases hrest

theorem ran_removes {server : Server} [Base64] [WildMatch] {g : Int} {c : Call}
    {resume : Except Error c.Reply → Action Response} {key : StorageId × Text}
    (h : Pool.Ran program start schedule i m n (server.program (.runLocalGc false g))
      (.call c resume)) (hc : Removes c key) :
    ∃ l, m ≤ l ∧ l < n ∧ ∃ ready : List (StorageId × Text),
      Pool.Happens program start schedule i l ⟨listing g, .ok ready⟩ ∧ key ∈ ready := by
  rw [program_runLocalGc] at h
  obtain ⟨k₁, u, h₁, h₂⟩ := Pool.Ran.after h marking_uses (not_marks_removes hc)
  have hreads : (listStorageObjectsReadyForDeletion g).Uses (fun c : Call => c.reads = true) :=
    Prog.uses_perform rfl
  obtain ⟨k₂, ready, h₃, h₄⟩ := Pool.Ran.after h₂ hreads (by cases hc <;> simp [Call.reads])
  obtain ⟨l, hl, hlk, hh⟩ := Pool.Ran.performed h₃
  have := h₁.le
  have := h₄.le
  exact ⟨l, by omega, by omega, ready, hh, ran_deleting h₄ hc⟩

end

section

variable [Base64] [WildMatch] (r : ServerRun)

structure ListsAt (g : Int) (i l : Nat) (ready : List (StorageId × Text)) : Prop where
  works : r.Works i l (.runLocalGc false g)
  happens : r.Happens i l ⟨listing g, .ok ready⟩

structure RemovesAt (g : Int) (i k : Nat) (key : StorageId × Text) : Prop where
  works : r.Works i k (.runLocalGc false g)
  removes : ∃ c reply, r.Happens i k ⟨c, reply⟩ ∧ Removes c key

variable {r} {g : Int} {i k l : Nat} {key : StorageId × Text} {ready : List (StorageId × Text)}

theorem removesAt_of_call (hi : r.schedule.choice k = .advance i)
    (hq : ((r.pool k).tasks[i]?).map Task.request = some (.runLocalGc false g))
    (hc : key ∈ ((r.call k).map removed).getD []) : RemovesAt r g i k key := by
  obtain ⟨⟨q, rest⟩, ht, rfl⟩ := Option.map_eq_some_iff.mp hq
  unfold ServerRun.call at hc
  rw [hi, nextCall, ht] at hc
  cases rest with
  | done x => cases hc
  | call c resume =>
    exact ⟨⟨_, ht, rfl⟩, c, (answer c (r.schedule.env k) (r.world k)).2, ⟨hi, ⟨_, _, ht⟩, rfl⟩,
      removes_of_mem hc⟩

theorem ListsAt.lists (h : ListsAt r g i l ready) :
    ready = (r.db l).readyForDeletion g (r.schedule.env l).sqliteNow := by
  have hreply : .ok ready = (answer (listing g) (r.schedule.env l) (r.world l)).2 := h.happens.reply
  rw [answer_of_ok hreply.symm] at hreply
  exact Except.ok.inj hreply

theorem RemovesAt.listed (h : RemovesAt r g i k key) :
    ∃ l < k, ∃ ready, ListsAt r g i l ready ∧ key ∈ ready := by
  obtain ⟨c, reply, ⟨-, ⟨q, resume, hcall⟩, -⟩, hc⟩ := h.removes
  obtain ⟨rest, hrest, -⟩ := h.works
  obtain rfl : q = .runLocalGc false g := by
    have heq := Option.some.inj (hcall.symm.trans hrest)
    injection heq
  have hran : Pool.Ran r.server.program ⟨r.start, []⟩ r.schedule i 0 k
      (r.server.program (.runLocalGc false g)) _ := Pool.ran_of_task rfl hcall
  obtain ⟨l, -, hlk, ready, hh, hmem⟩ := ran_removes hran hc
  exact ⟨l, hlk, ready, ⟨Publisher.works_between le_rfl hlk.le hh h.works, hh⟩, hmem⟩

end

end Collecting
