import ProjectCache.Depot.Frame

namespace Depot

open Textual Nix Project Calendar Tables Store Db Programs

theorem mem_of_upsert {R : Type} [Keyed R] {t u : Table R} {row r : R} {p : R → Bool} {f : R → R}
    {hf : Table.KeepsKey f} (h : t.upsert row p f hf = some u) (hr : r ∈ t.rows) :
    r ∈ u.rows ∨ p r = true ∧ f r ∈ u.rows := by
  by_cases ha : t.rows.any p = true
  · rw [Table.upsert_of_any ha] at h
    cases h
    cases hp : p r with
    | false => exact Or.inl (Table.mem_update_of_neg p f hf hr hp)
    | true => exact Or.inr ⟨rfl, Table.mem_update_of_pos p f hf hr hp⟩
  · rw [Table.upsert_of_not_any (Bool.eq_false_iff.mpr ha)] at h
    exact Or.inl ((Table.mem_of_insert h).mpr (Or.inl hr))

structure Grows (a b : Database) : Prop where
  projects : ∀ p ∈ a.projects.rows, ∃ q ∈ b.projects.rows, q.id = p.id ∧ q.slug = p.slug
  pathInfos : ∀ r ∈ a.pathInfos.rows, r ∈ b.pathInfos.rows
  buildPaths : ∀ r ∈ a.buildPaths.rows, r ∈ b.buildPaths.rows
  pathObjects : ∀ r ∈ a.pathObjects.rows, r ∈ b.pathObjects.rows
  builds : ∀ r ∈ a.builds.rows, ∃ s ∈ b.builds.rows, s.id = r.id ∧ s.projectId = r.projectId ∧
    s.refName = r.refName ∧ (r.status = .finalized → s.status = .finalized)

namespace Grows

variable {a b c : Database}

theorem refl (a : Database) : Grows a a where
  projects := fun p hp => ⟨p, hp, rfl, rfl⟩
  pathInfos := fun _ hr => hr
  buildPaths := fun _ hr => hr
  pathObjects := fun _ hr => hr
  builds := fun r hr => ⟨r, hr, rfl, rfl, rfl, id⟩

theorem trans (h : Grows a b) (k : Grows b c) : Grows a c where
  projects := fun p hp => by
    obtain ⟨q, hq, hqi, hqs⟩ := h.projects p hp
    obtain ⟨r, hr, hri, hrs⟩ := k.projects q hq
    exact ⟨r, hr, hri.trans hqi, hrs.trans hqs⟩
  pathInfos := fun r hr => k.pathInfos r (h.pathInfos r hr)
  buildPaths := fun r hr => k.buildPaths r (h.buildPaths r hr)
  pathObjects := fun r hr => k.pathObjects r (h.pathObjects r hr)
  builds := fun r hr => by
    obtain ⟨s, hs, hsi, hsp, hsr, hsf⟩ := h.builds r hr
    obtain ⟨t, ht, hti, htp, htr, htf⟩ := k.builds s hs
    exact ⟨t, ht, hti.trans hsi, htp.trans hsp, htr.trans hsr, fun hf => htf (hsf hf)⟩

theorem pathInfo (h : Grows a b) {p : StorePathHash} {pi : PathInfoRow}
    (hp : a.pathInfo p = some pi) : b.pathInfo p = some pi := by
  rw [Database.pathInfo_eq_some] at hp ⊢
  exact ⟨h.pathInfos pi hp.1, hp.2⟩

theorem build (h : Grows a b) {id : Uuid} {r : BuildRow} (hr : a.build id = some r) :
    ∃ s, b.build id = some s ∧ s.projectId = r.projectId ∧ s.refName = r.refName ∧
      (r.status = .finalized → s.status = .finalized) := by
  obtain ⟨hm, rfl⟩ := Database.build_eq_some.mp hr
  obtain ⟨s, hs, hi, hp, hn, hf⟩ := h.builds r hm
  exact ⟨s, Database.build_eq_some.mpr ⟨hs, hi⟩, hp, hn, hf⟩

theorem buildContext (h : Grows a b) {id : Uuid} {c d : BuildContextRecord}
    (hc : a.buildContext id = some c) (hd : b.buildContext id = some d) :
    d.projectId = c.projectId ∧ d.projectSlug = c.projectSlug ∧ d.refName = c.refName := by
  simp only [Database.buildContext, Option.bind_eq_bind, Option.bind_eq_some_iff, Option.pure_def,
    Option.some.injEq] at hc hd
  obtain ⟨s, hs, p, hp, rfl⟩ := hc
  obtain ⟨t, ht, q, hq, rfl⟩ := hd
  obtain ⟨t', ht', hproject, href, -⟩ := h.build hs
  obtain rfl : t = t' := by simpa [ht] using ht'
  have hps := List.find?_some hp
  have hqt := List.find?_some hq
  simp only [decide_eq_true_eq] at hps hqt
  obtain ⟨q', hq', hid, hslug⟩ := h.projects p (List.mem_of_find?_eq_some hp)
  obtain rfl : q = q' := Database.project_eq_of_id (List.mem_of_find?_eq_some hq) hq'
    (by rw [hid, hqt, hps, hproject])
  exact ⟨hid, hslug, href⟩

theorem projectBySlug (h : Grows a b) {slug : ProjectSlug} {p : ProjectRow}
    (hp : a.projectBySlug slug = some p) : ∃ q, b.projectBySlug slug = some q ∧ q.id = p.id := by
  obtain ⟨hm, rfl⟩ := Database.projectBySlug_eq_some.mp hp
  obtain ⟨q, hq, hi, hs⟩ := h.projects p hm
  exact ⟨q, Database.projectBySlug_eq_some.mpr ⟨hq, hs⟩, hi⟩

end Grows

theorem Frame.grows {tables : List TableName} {a b : Database} (h : Frame tables a b)
    (hp : .projects ∉ tables) (hi : .pathInfos ∉ tables) (hb : .buildPaths ∉ tables)
    (ho : .pathObjects ∉ tables) (hu : .builds ∉ tables) : Grows a b where
  projects := fun p hm => ⟨p, h.projects hp ▸ hm, rfl, rfl⟩
  pathInfos := fun _ hm => h.pathInfos hi ▸ hm
  buildPaths := fun _ hm => h.buildPaths hb ▸ hm
  pathObjects := fun _ hm => h.pathObjects ho ▸ hm
  builds := fun r hm => ⟨r, h.builds hu ▸ hm, rfl, rfl, rfl, id⟩

theorem grows_written {w : World} {table : Text} {result : Option Database}
    (h : ∀ db', result = some db' → Grows w.db db') :
    Grows w.db (w.written table result).1.db := by
  cases result with
  | none => exact Grows.refl _
  | some db' => exact h db' rfl

theorem carryOut_grows (c : Call) (e : Env) (w : World) : Grows w.db (carryOut c e w).1.db := by
  have hframe := carryOut_frame c e w
  cases c with
  | insertProject row =>
    refine grows_written (fun db' h => ?_)
    obtain ⟨t, rfl, ht⟩ := insertProject_eq_some h
    refine { Grows.refl w.db with projects := fun p hp => ?_ }
    rcases mem_of_upsert ht hp with hm | ⟨-, hm⟩
    · exact ⟨p, hm, rfl, rfl⟩
    · exact ⟨_, hm, rfl, rfl⟩
  | insertBuild id projectId refName revision =>
    refine grows_written (fun db' h => ?_)
    obtain ⟨t, rfl, ht⟩ := insertBuild_eq_some h
    exact { Grows.refl w.db with
      builds := fun r hr =>
        ⟨r, (Table.mem_of_insert ht).mpr (Or.inl hr), rfl, rfl, rfl, fun hf => hf⟩ }
  | insertPathInfo row =>
    exact { Grows.refl w.db with
      pathInfos := fun r hr => Table.mem_insertOrIgnore_of_mem hr }
  | attachBuildPath buildId p =>
    refine grows_written (fun db' h => ?_)
    obtain ⟨-, rfl⟩ := attachBuildPath_eq_some.mp h
    exact { Grows.refl w.db with
      buildPaths := fun r hr => Table.mem_insertOrIgnore_of_mem hr }
  | linkPathObject p o kind =>
    refine grows_written (fun db' h => ?_)
    obtain ⟨-, rfl⟩ := linkPathObject_eq_some.mp h
    exact { Grows.refl w.db with
      pathObjects := fun r hr => Table.mem_insertOrIgnore_of_mem hr }
  | publishBuild projectId refName buildId finalizedAt =>
    refine grows_written (fun db' h => ?_)
    obtain ⟨-, -, t, -, rfl⟩ := publishBuild_eq_some.mp h
    refine { Grows.refl w.db with builds := fun r hr => ?_ }
    have hk : Table.KeepsKey (Database.markFinalized finalizedAt) := ⟨fun _ _ => rfl⟩
    by_cases hid : r.id = buildId
    · have hm := Table.mem_update_of_pos (fun b => b.id = buildId) _ hk hr (decide_eq_true hid)
      exact ⟨_, hm, rfl, rfl, rfl, fun _ => rfl⟩
    · have hm := Table.mem_update_of_neg (fun b => b.id = buildId) _ hk hr (decide_eq_false hid)
      exact ⟨_, hm, rfl, rfl, rfl, fun hf => hf⟩
  | _ => refine hframe.grows ?_ ?_ ?_ ?_ ?_ <;> simp [Call.writes]

theorem answer_grows (c : Call) (e : Env) (w : World) : Grows w.db (answer c e w).1.db := by
  rcases answer_state c e w with h | h
  · rw [h]
    exact Grows.refl _
  · rw [h]
    exact carryOut_grows c e w

end Depot
