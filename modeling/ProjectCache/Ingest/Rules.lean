import ProjectCache.Depot.Rules
import ProjectCache.Ingest.Service

namespace Ingest

open Textual Nix Project Narinfo Tables Store Db Depot Programs SqliteDatabase IngestService

variable {surrounding : machine.Surrounding} {w : World}

theorem outline_pendingBuildContext
    {check : Call → Env → World → Action BuildContextRecord → Prop}
    {post : Except Error BuildContextRecord → World → Prop} {b : Uuid}
    (hcheck : ∀ (query : Database → Option BuildContextRecord) e v rest,
      check (.select (fun _ db => query db)) e v rest)
    (h : ∀ v, surrounding.later w v →
      (∀ context, v.db.buildContext b = some context → context.status = .pending →
        post (.ok context) v) ∧ ∀ x, post (.error x) v) :
    Outline surrounding check post (pendingBuildContext b) w := by
  refine Outline.bind (outline_select (fun v hv e he => ⟨fun r => hcheck _ _ _ _, ?_, (h v hv).2⟩))
  rw [onOk_ok]
  cases hc : v.db.buildContext b with
  | none => exact (h v hv).2 _
  | some context =>
    change Outline surrounding check post
      (if context.status ≠ .pending then fail (.buildNotPending b) else .done (.ok context)) v
    split
    · exact (h v hv).2 _
    · rename_i hs
      exact (h v hv).1 context hc (not_not.mp hs)

end Ingest
