import ProjectCache.Depot.Sequence
import ProjectCache.Gc.Stored

namespace Interrupted

open Textual Nix Project Calendar Tables Store Db Programs Depot Depot.Server Ingest Gc
  SqliteDatabase

def Shown (so : StorageObjectRow) : Prop := so.deletedAt = none

section

variable {catalog : StorageCatalog} {g : Int} {faults : Prop}
  {clear mark : List StorePathHash → Prop} {clock : SqliteTime → Prop} {w v : World} {db : Database}
  {live stale : List StorePathHash} {t : SqliteTime}

theorem not_ready {so : StorageObjectRow} (hm : so ∈ db.storageObjects.rows) (hs : Shown so) :
    (so.storageId, so.objectPath) ∉ db.readyForDeletion g t := by
  intro hready
  obtain ⟨so', hm', hkey, hdeleted, -⟩ := mem_readyForDeletion.mp hready
  obtain ⟨hid, hpath⟩ := Prod.mk.inj hkey
  obtain rfl : so' = so := Table.eq_of_clash hm' hm (by simp [Keyed.clash, hid, hpath])
  rw [hs] at hdeleted
  cases hdeleted

def RevivesStored (w : World) (live : List StorePathHash) : Prop :=
  ∀ so ∈ w.db.storageObjects.rows, ¬ Shown so → so.objectPath ∈ w.db.liveObjects live →
    HasBlob w so

theorem shown_or_hasBlob (hr : RevivesStored w live) {so : StorageObjectRow}
    (hm : so ∈ w.db.storageObjects.rows) (hl : so.objectPath ∈ w.db.liveObjects live) :
    Shown so ∨ HasBlob w so := by
  by_cases hs : Shown so
  · exact Or.inl hs
  · exact Or.inr (hr so hm hs hl)

theorem backed_cleared (h : Backed catalog Shown w) (hr : RevivesStored w live) :
    Backed catalog Shown { w with db := w.db.clearDeletedState live } := by
  refine h.of_rows _ (fun so' hm' => ?_)
  obtain ⟨so, hm, rfl⟩ := mem_clearDeletedState.mp hm'
  refine ⟨so, hm, ?_⟩
  split
  · rename_i hl
    exact ⟨rfl, rfl, fun _ => shown_or_hasBlob hr hm hl⟩
  · exact ⟨rfl, rfl, Or.inl⟩

theorem backed_tidied (h : Backed catalog Shown w) (hr : RevivesStored w live) :
    Backed catalog Shown { w with db := tidied w.db live stale t } := by
  refine h.of_rows _ (fun so' hm' => ?_)
  obtain ⟨so, hm, rfl⟩ := mem_tidied.mp hm'
  refine ⟨so, hm, by simp, by simp, fun hk => ?_⟩
  by_cases hl : so.objectPath ∈ w.db.liveObjects live
  · exact shown_or_hasBlob hr hm hl
  · by_cases hs : so.objectPath ∈ w.db.liveObjects stale
    · simp only [hl, hs, not_true, decide_false, tidiedRow] at hk
      exact Or.inl hk
    · simp [hl, hs, tidiedRow, tombed, Shown] at hk

theorem backed_of_stops {result : Except Error RunGcResponse}
    (h : Stops catalog g faults clear mark clock w result v) (hw : Backed catalog Shown w)
    (hr : ∀ live, clear live → RevivesStored w live) : Backed catalog Shown v := by
  cases h with
  | failed x => exact hw
  | cleared hl x => exact backed_cleared hw (hr _ hl)
  | marked hl hs ht x => exact backed_tidied hw (hr _ hl)
  | deleting hl hs ht ht' hgone hf x =>
    refine (backed_tidied hw (hr _ hl)).drop (fun so hm hshown hkey => ?_)
    exact not_ready hm hshown (List.mem_filter.mp (hgone _ hkey)).1
  | @deleted live stale hl hs t t' ht ht' deleted hd =>
    have htidied : Backed catalog Shown { w with db := tidied w.db live stale t } :=
      backed_tidied hw (hr _ hl)
    have hrows := htidied.of_rows ((tidied w.db live stale t).deleteStorageObjects deleted)
      (fun so hm => ⟨so, (Table.mem_delete.mp hm).1, rfl, rfl, Or.inl⟩)
    refine hrows.drop (fun so hm _ => ?_)
    exact of_decide_eq_false (Table.mem_delete.mp hm).2

end

section

variable [Base64] [WildMatch] (r : SerialRun)

def OnlyGcFails : Prop :=
  ∀ n, (∀ dryRun g, r.request n ≠ .runLocalGc dryRun g) →
    ∀ k, ((r.turns n).env k).outcome = .answered

def rootsFound (n : Nat) : Except Error (List StorePathHash) :=
  (machine.exec listRootStorePathHashes (r.turns n).env (r.world n)).2

def GcsReviveStored : Prop :=
  ∀ n g roots, r.request n = .runLocalGc false g → rootsFound r n = .ok roots →
    RevivesStored (r.world n) roots

def finishGc (server : Server) (g : Int) (live : List StorePathHash) : Action Response :=
  .ranGc <$> sweepFrom server.gcService g live

omit [Base64] in
theorem runLocalGc_bind (server : Server) (g : Int) :
    (Response.ranGc <$> server.gcService.runLocalGcWithGracePeriod false g : Action Response) =
      listRootStorePathHashes.bind (finishGc server g) := by
  rw [runLocalGc_eq, Prog.map_eq, Prog.bind_assoc]
  rfl

variable {r}

theorem backed_gc_turn {n : Nat} {g : Int} (hq : r.request n = .runLocalGc false g)
    (hc : GcsReviveStored r)
    (h : Backed r.server.storageCatalog Shown (r.world n)) :
    Backed r.server.storageCatalog Shown (r.world (n + 1)) := by
  have hprogram : r.server.program (r.request n) =
      listRootStorePathHashes.bind (finishGc r.server g) := by
    rw [hq]
    exact runLocalGc_bind r.server g
  have hroots : (machine.exec listRootStorePathHashes (r.turns n).env (r.world n)).1 = r.world n :=
    exec_reading (uses_listRootStorePathHashes (fun _ h => h)) _ _
  obtain ⟨count, hexec⟩ := Machine.exec_bind (M := machine) listRootStorePathHashes
    (finishGc r.server g) (r.turns n).env (r.world n)
  change Backed _ _ (machine.exec (r.server.program (r.request n)) _ _).1
  rw [hprogram, hexec, hroots]
  cases hl : (machine.exec listRootStorePathHashes (r.turns n).env (r.world n)).2 with
  | error x => exact h
  | ok live =>
    have hsweep : machine.wp (fun _ => True) (fun _ v => Backed r.server.storageCatalog Shown v)
        (sweepFrom r.server.gcService g live) (r.world n) := by
      refine Machine.wp_mono (wp_sweepFrom r.server.gcService g True (· = live) (fun _ => True)
        (fun _ => True) rfl
        (fun storageObjects => ?_) (fun _ _ => trivial) (fun _ _ _ => trivial)) (fun x v hv => ?_)
      · exact Machine.wp_mono (wp_reading (uses_listRootStorePathHashes (fun _ h => h)))
          (fun _ _ hv => ⟨hv, fun _ _ => trivial⟩)
      · exact backed_of_stops hv h (fun roots hroots => hroots ▸ hc n g live hq hl)
    have hfinish : machine.wp (fun _ => True) (fun _ v => Backed r.server.storageCatalog Shown v)
        (finishGc r.server g live) (r.world n) :=
      Machine.wp_bind.mpr (Machine.wp_mono hsweep (fun x v hv => by cases x <;> exact hv))
    exact Machine.exec_of_wp hfinish (fun _ => trivial)

theorem backed_turn (hf : OnlyGcFails r) (hs : ∀ n, FitsColumn (r.request n))
    (hc : GcsReviveStored r) (n : Nat) (h : Backed r.server.storageCatalog Shown (r.world n)) :
    Backed r.server.storageCatalog Shown (r.world (n + 1)) := by
  by_cases hgc : ∃ g, r.request n = .runLocalGc false g
  · obtain ⟨g, hq⟩ := hgc
    exact backed_gc_turn hq hc h
  · have hgc' : ∀ g, r.request n ≠ .runLocalGc false g := fun g hq => hgc ⟨g, hq⟩
    by_cases hdry : ∃ g, r.request n = .runLocalGc true g
    · obtain ⟨g, hq⟩ := hdry
      refine SerialRun.of_wp_any (fun _ v => Backed r.server.storageCatalog Shown v) ?_
      rw [hq]
      exact wp_dryGc h g
    · refine SerialRun.of_wp (fun _ v => Backed r.server.storageCatalog Shown v)
        (wp_request (fun _ he => he) (hs n) hgc' h) (hf n (fun dryRun g hq => ?_))
      cases dryRun
      · exact hgc' g hq
      · exact hdry ⟨g, hq⟩

theorem shown_rows_stored (r : FreshSerialRun) (hf : OnlyGcFails r.toSerialRun)
    (hs : ∀ n, FitsColumn (r.request n)) (hc : GcsReviveStored r.toSerialRun) (n : Nat) :
    ∀ so ∈ (r.db n).storageObjects.rows, so.deletedAt = none → HasBlob (r.world n) so := by
  have hbacked : Backed r.server.storageCatalog Shown (r.world n) := by
    induction n with
    | zero =>
      intro so hm
      simp [SerialRun.world, r.empty] at hm
    | succ n ih => exact backed_turn hf hs hc n ih
  exact fun so hm hshown => (hbacked so hm).2 hshown

end

section Examples

attribute [local instance] standardBase64 standardWildMatch

def glibcPayload : NarInfoPayload :=
  { helloPayload with
    storePath := "/nix/store/0123456789abcdfghijklmnpqrsvwxyz-glibc".toList
    url := "nar/120ay2q1av2xs4n842rb3d7vz8qms1dcb87a5yd6azaci20x11lz.nar.zst".toList
    narHash := "sha256:120ay2q1av2xs4n842rb3d7vz8qms1dcb87a5yd6azaci20x11lz".toList }

def unretainedRequests : List Request :=
  [.insertProject exampleSlug "Example".toList true .main,
    .replaceRetentionPolicy exampleSlug 1 0 [⟨10, "release".toList, none, some 1⟩],
    .beginBuild exampleSlug.text "main".toList none,
    .registerPaths 201 [helloPayload, glibcPayload],
    .uploadObject 201 helloHash helloPayload.url [1, 2, 3, 4, 5],
    .uploadObject 201 glibcHash glibcPayload.url [1, 2, 3, 4, 5], .finalizeBuild 201,
    .runLocalGc false 0]

def interrupted (requests : List Request) : FreshSerialRun :=
  { inTurn requests with
    turns := fun n =>
      { request := requests.getD n (.deletePin [] none)
        env := fun k => { moment (100 * n + k) with
          outcome := if n = 7 ∧ k = 16 then .refused [] else .answered } } }

theorem interrupted_onlyGcFails (requests : List Request)
    (h : requests.getD 7 (.deletePin [] none) = .runLocalGc false 0) :
    OnlyGcFails (interrupted requests).toSerialRun := by
  intro n hn k
  refine if_neg (fun hnk => ?_)
  obtain rfl := hnk.1
  exact hn false 0 h

theorem interrupted_rows_stored :
    ((interrupted unretainedRequests).db 8).storageObjects.rows.length = 2 ∧
      ∀ so ∈ ((interrupted unretainedRequests).db 8).storageObjects.rows, so.deletedAt = none →
        HasBlob ((interrupted unretainedRequests).world 8) so := by
  have hrun : ((interrupted unretainedRequests).db 8).storageObjects.rows.length = 2 ∧
      ∀ so ∈ ((interrupted unretainedRequests).world 7).db.storageObjects.rows,
        so.deletedAt = none := by
    decide +kernel
  have hrequest : ∀ n, 8 ≤ n →
      (interrupted unretainedRequests).request n = .deletePin [] none := by
    intro n hn
    simp [SerialRun.request, interrupted, List.getD, List.getElem?_eq_none
      (show unretainedRequests.length ≤ n from hn)]
  have hgc : ∀ n < 8, (match (interrupted unretainedRequests).request n with
      | .runLocalGc _ _ => decide (n = 7)
      | _ => true) = true := by decide
  refine ⟨hrun.1, shown_rows_stored (interrupted unretainedRequests)
    (interrupted_onlyGcFails _ (by decide)) (fun n => ?_) ?_ 8⟩
  · by_cases hn : n < 8
    · have hfits : ∀ n < 8, FitsColumn ((interrupted unretainedRequests).request n) := by decide
      exact hfits n hn
    · rw [hrequest n (Nat.not_lt.mp hn)]
      trivial
  · intro n g roots hq _ so hm hs
    have hn : n = 7 := by
      by_cases hn : n < 8
      · simpa [hq] using hgc n hn
      · rw [hrequest n (Nat.not_lt.mp hn)] at hq
        cases hq
    subst hn
    exact absurd (hrun.2 so hm) hs

def revivedRun : FreshSerialRun :=
  interrupted (unretainedRequests ++
    [.upsertPin "kept".toList none helloHash helloPayload.storePath, .runLocalGc false 0])

theorem revived_row_not_stored : OnlyGcFails revivedRun.toSerialRun ∧
    ∃ so ∈ (revivedRun.db 10).storageObjects.rows, so.deletedAt = none ∧
      ¬ HasBlob (revivedRun.world 10) so ∧ HasBlob (revivedRun.world 7) so ∧
        ∀ n < 10, 7 ≤ n → (revivedRun.request n).ingests = false := by
  refine ⟨interrupted_onlyGcFails _ (by decide), ?_⟩
  unfold HasBlob
  decide +kernel

end Examples

end Interrupted
