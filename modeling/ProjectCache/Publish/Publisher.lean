import ProjectCache.Publish.Frozen

namespace Publisher

open Textual Nix Project Calendar Tables Store Db Programs Ingest Depot Depot.Server
  SqliteDatabase

section

variable {Q A B : Type} {program : Q → Action A} {start : Pool machine Q A}
  {schedule : Pool.Schedule machine Q} {i m n : Nat}

theorem ran_select {query : Database → B} {b : B}
    (h : Pool.Ran program start schedule i m n (select query) (.done (.ok b))) :
    ∃ k, m ≤ k ∧ k < n ∧ schedule.choice k = .advance i ∧
      b = query (Pool.run program start schedule k).state.db := by
  obtain ⟨k, hmk, hkn, hh⟩ := Pool.Ran.performed h
  refine ⟨k, hmk, hkn, hh.chosen, ?_⟩
  have hreply : .ok b = (answer (.select (fun _ db => query db)) (schedule.env k)
    (Pool.run program start schedule k).state).2 := hh.reply
  rw [answer_of_ok hreply.symm] at hreply
  exact Except.ok.inj hreply

theorem carried_of_happens {c : Call} {reply : c.Reply}
    (h : Pool.Happens program start schedule i n ⟨c, .ok reply⟩) :
    (Pool.run program start schedule (n + 1)).state =
        (carryOut c (schedule.env n) (Pool.run program start schedule n).state).1 ∧
      (carryOut c (schedule.env n) (Pool.run program start schedule n).state).2 = .ok reply := by
  have hreply :
      .ok reply = (answer c (schedule.env n) (Pool.run program start schedule n).state).2 :=
    h.reply
  have hstate : (Pool.run program start schedule (n + 1)).state =
      (answer c (schedule.env n) (Pool.run program start schedule n).state).1 := h.state
  have hcarry := answer_of_ok hreply.symm
  rw [hcarry] at hreply hstate
  exact ⟨hstate, hreply.symm⟩

theorem ran_orFail {value : Option B} {error : Error} {b : B}
    (h : Pool.Ran program start schedule i m n (orFail value error) (.done (.ok b))) :
    value = some b := by
  cases value with
  | none => cases h
  | some c =>
    cases h
    rfl

theorem ran_publish {service : IngestService} {b b' p : Uuid} {name : Text} {t : UtcDateTime}
    {resume : Except Error Unit → Action Unit}
    (h : Pool.Ran program start schedule i m n (service.finalizeBuild b)
      (.call (.publishBuild p name b' t) resume)) :
    b' = b ∧
    (∃ k, m ≤ k ∧ k < n ∧ ∃ context,
      (Pool.run program start schedule k).state.db.buildContext b = some context ∧
        name = context.refName ∧ ∃ l < n, ∃ row,
          (Pool.run program start schedule l).state.db.projectBySlug context.projectSlug =
            some row ∧ row.id = p) ∧
    ∃ l, m ≤ l ∧ l < n ∧ Pool.Happens program start schedule i l ⟨.now, .ok t⟩ := by
  have hr : ∀ d : Call, d.reads = true → FrozenBuild.isPublish d = false :=
    FrozenBuild.reads_not_isPublish
  have hno : ¬ FrozenBuild.isPublish (.publishBuild p name b' t) = false := by
    simp [FrozenBuild.isPublish]
  obtain ⟨k₁, context, h₁, h₂⟩ := Pool.Ran.after h (uses_pendingBuildContext hr b) hno
  obtain ⟨k₂, paths, h₃, h₄⟩ := Pool.Ran.after h₂ (uses_select hr _) hno
  split at h₄
  · cases h₄
  obtain ⟨k₃, upstreams, h₅, h₆⟩ := Pool.Ran.after h₄ (uses_projectUpstreams hr _) hno
  obtain ⟨k₄, ⟨storageId, storage⟩, h₇, h₈⟩ := Pool.Ran.after h₆ (uses_storageForProject hr _ _) hno
  obtain ⟨k₅, u, h₉, h₁₀⟩ := Pool.Ran.after h₈
    (uses_finalizePaths hr (fun _ _ _ => rfl) (fun _ _ => rfl) _ _ _ _ _) hno
  obtain ⟨k₆, projectId, h₁₁, h₁₂⟩ := Pool.Ran.after h₁₀ (uses_projectIdBySlug hr _) hno
  obtain ⟨k₇, finalizedAt, h₁₃, h₁₄⟩ := Pool.Ran.after h₁₂ (uses_reading hr rfl) hno
  obtain ⟨k₈, found, h₁₅, h₁₆⟩ := Pool.Ran.finished h₁
  obtain ⟨k₉, found', h₁₇, h₁₈⟩ := Pool.Ran.finished h₁₆
  obtain ⟨k, hmk, hk₈, -, rfl⟩ := ran_select h₁₅
  obtain ⟨k₁₀, id, h₁₉, h₂₀⟩ := Pool.Ran.finished h₁₁
  obtain ⟨l, -, hl, -, rfl⟩ := ran_select h₁₉
  obtain ⟨clock, hclock, hclock', hnow⟩ := Pool.Ran.performed h₁₃
  split at h₁₈
  · cases h₁₈
  have := h₁.le
  have := h₃.le
  have := h₅.le
  have := h₇.le
  have := h₉.le
  have := h₁₁.le
  have := h₁₄.le
  have := h₁₆.le
  have := h₂₀.le
  cases h₁₈
  obtain ⟨row, hrow, hrid⟩ := Option.map_eq_some_iff.mp (ran_orFail h₂₀)
  cases h₁₄ with
  | stay =>
    exact ⟨rfl, ⟨k, hmk, by omega, context, ran_orFail h₁₇, rfl, l, by omega, row, hrow, hrid⟩,
      clock, by omega, by omega, hnow⟩
  | call _ _ _ hrest => cases hrest

end

section

variable [Base64] [WildMatch] {r : ServerRun} {n : Nat} {p : Publication}

theorem build_of_context {id : Uuid} {k l : Nat} {context : BuildContextRecord} {row : ProjectRow}
    (hk : k < n) (hc : (r.db k).buildContext id = some context) (hl : l < n)
    (hrow : (r.db l).projectBySlug context.projectSlug = some row) :
    ∀ b ∈ (r.db n).builds.rows, b.id = id →
      b.projectId = row.id ∧ b.refName = context.refName := by
  intro b hb hbid
  simp only [Database.buildContext, Option.bind_eq_bind, Option.bind_eq_some_iff, Option.pure_def,
    Option.some.injEq] at hc
  obtain ⟨old, hold, q, hq, rfl⟩ := hc
  have hgk := ServerRun.grows_le (r := r) hk.le
  obtain ⟨b', hb', hproject, href, -⟩ := hgk.build hold
  obtain ⟨hbm, hbi⟩ := Database.build_eq_some.mp hb'
  obtain rfl := Table.eq_of_clash hb hbm (by simp [Keyed.clash, hbid, hbi])
  obtain ⟨row', hrow', hrid⟩ := (ServerRun.grows_le (r := r) hl.le).projectBySlug hrow
  obtain ⟨q', hq', hqid, hqslug⟩ := hgk.projects q (List.mem_of_find?_eq_some hq)
  have hsame : (r.db n).projectBySlug q.slug = some q' :=
    Database.projectBySlug_eq_some.mpr ⟨hq', hqslug⟩
  obtain rfl : row' = q' := by simpa [hsame, eq_comm] using hrow'
  have howner : q.id = old.projectId := by simpa using List.find?_some hq
  exact ⟨by rw [hproject, ← howner, ← hqid, hrid], href⟩

theorem owner_of_context {k l : Nat} {context : BuildContextRecord} {row : ProjectRow}
    (hk : k < n) (hc : (r.db k).buildContext p.buildId = some context)
    (hname : p.refName = context.refName) (hl : l < n)
    (hrow : (r.db l).projectBySlug context.projectSlug = some row) (hid : row.id = p.projectId) :
    ∀ b ∈ (r.db n).builds.rows, b.id = p.buildId →
      b.projectId = p.projectId ∧ b.refName = p.refName := by
  intro b hb hbid
  obtain ⟨hproject, href⟩ := build_of_context hk hc hl hrow b hb hbid
  exact ⟨hproject.trans hid, href.trans hname.symm⟩

theorem publisher (hp : p ∈ r.publishes n) : ∃ i, r.schedule.choice n = .advance i ∧
    r.Works i n (.finalizeBuild p.buildId) ∧
    (∀ b ∈ (r.db n).builds.rows, b.id = p.buildId →
      b.projectId = p.projectId ∧ b.refName = p.refName) ∧
    ∃ l < n, r.Happens i l ⟨.now, .ok p.finalizedAt⟩ := by
  obtain ⟨i, q, resume, hi, hc⟩ := publication_atCall hp
  obtain rfl : q = .finalizeBuild p.buildId := by
    cases (ServerRun.within n).atCall hc with
    | reads hr => cases hr
    | publishBuild => rfl
  have hran : Pool.Ran r.server.program ⟨r.start, []⟩ r.schedule i 0 n
      (r.server.program (.finalizeBuild p.buildId)) _ := Pool.ran_of_task rfl hc
  obtain ⟨next, hfinalize⟩ := Pool.Ran.of_map hran
  obtain ⟨-, ⟨k, -, hk, context, hcontext, hname, l, hl, row, hrow, hid⟩, l', -, hl', hnow⟩ :=
    ran_publish hfinalize
  exact ⟨i, hi, ⟨_, hc, rfl⟩, owner_of_context hk hcontext hname hl hrow hid, l', hl', hnow⟩

theorem finalizedAt_of_now {i l : Nat} {t : UtcDateTime} (h : r.Happens i l ⟨.now, .ok t⟩) :
    t = (r.schedule.env l).now := by
  have hreply : .ok t = (answer .now (r.schedule.env l) (r.world l)).2 := h.reply
  exact Except.ok.inj hreply

def FinalizedApart (r : ServerRun) : Prop :=
  ∀ n i j b c, i ≠ j → r.Works i n (.finalizeBuild b) → ¬ r.Works j n (.finalizeBuild c)

def ClockNeverBack (r : ServerRun) : Prop :=
  ∀ m n, m ≤ n → (r.schedule.env m).now.instant ≤ (r.schedule.env n).now.instant

theorem works_between {i k m n : Nat} {e : Prog.Event Interface} {request : Request}
    (hkm : k ≤ m) (hmn : m ≤ n) (hk : r.Happens i k e) (hn : r.Works i n request) :
    r.Works i m request := by
  obtain ⟨q, resume, hcall⟩ := hk.atCall
  obtain ⟨rest, hrest⟩ := Pool.request_of_le hkm hcall
  obtain ⟨last, hlast⟩ := Pool.request_of_le hmn hrest
  obtain ⟨rest', hrest', hrunning⟩ := hn
  have heq : (⟨q, last⟩ : Task Interface Request Response) = ⟨request, rest'⟩ :=
    Option.some.inj (hlast.symm.trans hrest')
  cases heq
  refine ⟨rest, hrest, ?_⟩
  cases rest with
  | call c resume => rfl
  | done x =>
    have hdone := Pool.done_of_le hmn hrest
    obtain rfl : last = .done x := by simpa using hlast.symm.trans hdone
    cases hrunning

theorem finalizedAt_le (ha : FinalizedApart r) (hc : ClockNeverBack r) {m : Nat} {q : Publication}
    (hmn : m < n) (hq : q ∈ r.publishes m) (hp : p ∈ r.publishes n) (hne : q.buildId ≠ p.buildId) :
    q.finalizedAt.instant ≤ p.finalizedAt.instant := by
  obtain ⟨i, hi, hworks, -, l, hl, hnow⟩ := publisher hp
  obtain ⟨j, hj, hworks', -, l', hl', hnow'⟩ := publisher hq
  rw [finalizedAt_of_now hnow, finalizedAt_of_now hnow']
  refine hc l' l (Nat.le_of_not_lt fun hlt => ?_)
  have hwi := works_between (by omega : l ≤ m) hmn.le hnow hworks
  have hij : i ≠ j := by
    rintro rfl
    obtain ⟨rest, hrest, -⟩ := hwi
    obtain ⟨rest', hrest', -⟩ := hworks'
    have heq := Option.some.inj (hrest.symm.trans hrest')
    injection heq with heq
    injection heq with heq
    exact hne heq.symm
  exact ha m i j _ _ hij hwi hworks'

theorem finalizedAt_published (r : FreshRun) (n : Nat) :
    ∀ b ∈ (r.db n).builds.rows, ∀ t ∈ b.finalizedAt,
      ∃ m < n, ∃ q ∈ r.publishes m, q.buildId = b.id ∧ q.finalizedAt = t := by
  induction n with
  | zero =>
    have hempty : (r.db 0).builds.rows = [] := by
      simp [ServerRun.db, ServerRun.world, ServerRun.pool, Pool.run, r.empty]
    simp [hempty]
  | succ n ih =>
    intro b hb t ht
    rcases (r.publishing n).build b hb with hold | ⟨-, hnone, -⟩ | ⟨q, hq, hid, old, -, rfl⟩
    · obtain ⟨m, hm, h⟩ := ih b hold t ht
      exact ⟨m, by omega, h⟩
    · rw [hnone] at ht
      cases ht
    · cases ht
      exact ⟨n, by omega, q, hq, hid, rfl⟩

end

end Publisher
