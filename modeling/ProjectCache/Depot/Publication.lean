import ProjectCache.Depot.Rules

namespace Depot

open Textual Nix Project Calendar Tables Store Db Programs

structure Publication where
  projectId : Uuid
  refName : Text
  buildId : Uuid
  finalizedAt : UtcDateTime
  deriving DecidableEq

def publicationOf (e : Env) (w : World) : Call → Option Publication
  | .publishBuild projectId refName buildId finalizedAt =>
    match e.outcome with
    | .refused _ => none
    | _ =>
      if (w.db.publishBuild projectId refName buildId finalizedAt e.sqliteNow).isSome then
        some ⟨projectId, refName, buildId, finalizedAt⟩
      else none
  | _ => none

structure Publishing (publication : Option Publication) (now : SqliteTime) (a b : Database) :
    Prop where
  build : ∀ row ∈ b.builds.rows, row ∈ a.builds.rows ∨
    row.status = .pending ∧ row.finalizedAt = none ∧ (∀ r ∈ a.builds.rows, r.id ≠ row.id) ∨
    ∃ q ∈ publication, q.buildId = row.id ∧ ∃ r ∈ a.builds.rows,
      row = Database.markFinalized q.finalizedAt r
  kept : ∀ row ∈ a.builds.rows, (∀ q ∈ publication, q.buildId ≠ row.id) → row ∈ b.builds.rows
  published : ∀ q ∈ publication, ∃ row ∈ a.builds.rows, row.id = q.buildId ∧
    Database.markFinalized q.finalizedAt row ∈ b.builds.rows
  ref : ∀ ref ∈ b.projectRefs.rows,
    ref ∈ a.projectRefs.rows ∧
      (∀ q ∈ publication, ¬ (q.projectId = ref.projectId ∧ q.refName = ref.refName)) ∨
    ∃ q ∈ publication, q.projectId = ref.projectId ∧ q.refName = ref.refName ∧
      q.buildId = ref.buildId ∧ ref.updatedAt = now

theorem Publishing.of_eq {a b : Database} {now : SqliteTime} (hb : b.builds = a.builds)
    (hr : b.projectRefs = a.projectRefs) : Publishing none now a b where
  build := fun row h => Or.inl (hb ▸ h)
  kept := fun row h _ => hb ▸ h
  published := fun q h => by cases h
  ref := fun ref h => Or.inl ⟨hr ▸ h, fun q hq => by cases hq⟩

theorem publishBuild_publishing {db db' : Database} {projectId : Uuid} {refName : Text}
    {buildId : Uuid} {finalizedAt : UtcDateTime} {now : SqliteTime}
    (h : db.publishBuild projectId refName buildId finalizedAt now = some db') :
    Publishing (some ⟨projectId, refName, buildId, finalizedAt⟩) now db db' := by
  obtain ⟨-, ⟨b, hb⟩, t, ht, rfl⟩ := publishBuild_eq_some.mp h
  obtain ⟨hbm, hbi⟩ := Database.build_eq_some.mp hb
  have hk : Table.KeepsKey (Database.markFinalized finalizedAt) := ⟨fun _ _ => rfl⟩
  constructor
  · intro row hrow
    have hmem : row ∈ (db.builds.update _ _ hk).rows := hrow
    obtain ⟨r, hr, hrow⟩ := Table.mem_update.mp hmem
    split at hrow
    · rename_i hid
      subst hrow
      exact Or.inr (Or.inr ⟨_, rfl, (of_decide_eq_true hid).symm, r, hr, rfl⟩)
    · exact Or.inl (hrow ▸ hr)
  · intro row hrow hne
    have hid := hne _ rfl
    exact Table.mem_update_of_neg _ _ hk hrow (decide_eq_false (Ne.symm hid))
  · rintro q ⟨⟩
    exact ⟨b, hbm, hbi, Table.mem_update_of_pos _ _ hk hbm (decide_eq_true hbi)⟩
  · intro ref href
    simp only [Option.mem_some_iff, forall_eq']
    rcases Table.of_mem_upsert ht href with ⟨hr, hp⟩ | ⟨r, hr, hp, rfl⟩ | rfl
    · simp only [Bool.and_eq_false_iff, decide_eq_false_iff_not] at hp
      exact Or.inl ⟨hr, fun hpr => hp.elim (fun hn => hn hpr.1.symm) (fun hn => hn hpr.2.symm)⟩
    · simp only [Bool.and_eq_true, decide_eq_true_eq] at hp
      exact Or.inr ⟨_, rfl, hp.1.symm, hp.2.symm, rfl, rfl⟩
    · exact Or.inr ⟨_, rfl, rfl, rfl, rfl, rfl⟩

theorem mem_publicationOf {c : Call} {e : Env} {w : World} {q : Publication}
    (h : q ∈ publicationOf e w c) :
    c = .publishBuild q.projectId q.refName q.buildId q.finalizedAt := by
  cases c with
  | publishBuild p r b t =>
    simp only [publicationOf] at h
    split at h
    · cases h
    · split at h
      · cases h
        rfl
      · cases h
  | _ => cases h

theorem answer_publishing (c : Call) (e : Env) (w : World) :
    Publishing (publicationOf e w c) e.sqliteNow w.db (answer c e w).1.db := by
  have hframe := answer_frame c e w
  cases c with
  | publishBuild p r b t =>
    simp only [publicationOf, answer, Call.local, Bool.false_eq_true, if_false, carryOut]
    cases ho : e.outcome with
    | refused m => exact .of_eq rfl rfl
    | _ =>
      cases hp : w.db.publishBuild p r b t e.sqliteNow with
      | none => exact .of_eq rfl rfl
      | some db' => exact publishBuild_publishing hp
  | insertBuild id projectId refName revision =>
    have hrefs := hframe.projectRefs (by simp [Call.writes])
    rcases answer_state (.insertBuild id projectId refName revision) e w with hs | hs
    · rw [hs]
      exact .of_eq rfl rfl
    rw [hs] at hrefs ⊢
    simp only [carryOut] at hrefs ⊢
    cases hi : w.db.insertBuild id projectId refName revision e.sqliteNow with
    | none => exact .of_eq rfl rfl
    | some db' =>
      obtain ⟨t, rfl, ht⟩ := insertBuild_eq_some hi
      constructor
      · intro row hrow
        rcases (Table.mem_of_insert ht).mp hrow with hr | rfl
        · exact Or.inl hr
        · refine Or.inr (Or.inl ⟨rfl, rfl, fun r hr hid => ?_⟩)
          obtain ⟨hf, -⟩ := Table.insert_eq_some.mp ht
          have := hf r hr
          simp [Keyed.clash, hid] at this
      · exact fun row hrow _ => (Table.mem_of_insert ht).mpr (Or.inl hrow)
      · intro q hq
        cases hq
      · exact fun ref href => Or.inl ⟨href, fun q hq => by cases hq⟩
  | _ =>
    refine .of_eq (hframe.builds ?_) (hframe.projectRefs ?_) <;> simp [Call.writes]

end Depot
