import ProjectCache.Depot.Rules

namespace TokenExpiry

open Textual Nix Project Calendar Tables Store Db Programs Depot SqliteDatabase

def recordsFor (t : AccessTokenRow) (slug : ProjectSlug) (refPatterns : List Text) :
    List AccessTokenRecord :=
  (refPatterns.map (fun refPattern =>
    { id := t.id
      name := t.name
      projectSlug := slug
      refPattern := if refPattern = [] then none else some refPattern
      createdAt := t.createdAt
      expiresAt := t.expiresAt
      revokedAt := t.revokedAt })).insertionSort
    (fun a b : AccessTokenRecord => a.refPattern.getD [] ≤ b.refPattern.getD [])

structure Stored (db : Database) (t : AccessTokenRow) (slug : ProjectSlug)
    (refPatterns : List Text) : Prop where
  token : t ∈ db.accessTokens.rows
  project : ∃ p ∈ db.projects.rows, p.id = t.projectId ∧ p.slug = slug
  patterns : (db.accessTokenRefPatterns.rows.filter (fun r => r.tokenId = t.id)).map
    AccessTokenRefPatternRow.refPattern = refPatterns

def patternsOf (db : Database) (tokenId : Uuid) : List Text :=
  (db.accessTokenRefPatterns.rows.filter (fun r => r.tokenId = tokenId)).map
    AccessTokenRefPatternRow.refPattern

theorem insertPatterns_rows {id : Uuid} {refPatterns : List Text}
    {t u : Table AccessTokenRefPatternRow}
    (h : Database.insertPatterns id refPatterns t = some u) :
    u.rows = t.rows ++ refPatterns.map (fun r => ⟨id, r⟩) := by
  induction refPatterns generalizing t with
  | nil =>
    cases h
    simp
  | cons r rest ih =>
    obtain ⟨v, hv, hu⟩ := Option.bind_eq_some_iff.mp h
    obtain ⟨hf, rfl⟩ := Table.insert_eq_some.mp hv
    rw [ih hu]
    simp [Table.add]

namespace Stored

variable {db : Database} {t : AccessTokenRow} {slug : ProjectSlug} {refPatterns : List Text}

theorem accessTokenRecords (h : Stored db t slug refPatterns) {p : AccessTokenRow → Bool}
    (hu : ∀ x ∈ db.accessTokens.rows, p x = true → x = t) :
    db.accessTokenRecords p = if p t then recordsFor t slug refPatterns else [] := by
  unfold Database.accessTokenRecords
  cases hp : p t with
  | false =>
    have hnil : db.accessTokens.rows.filter p = [] := by
      rw [List.filter_eq_nil_iff]
      intro x hx hpx
      rw [hu x hx hpx, hp] at hpx
      cases hpx
    simp [hnil]
  | true =>
    obtain ⟨q, hq, hqi, rfl⟩ := h.project
    have hone : db.projects.rows.filter (fun p => p.id = t.projectId) = [q] :=
      Table.filter_eq_singleton hq (decide_eq_true hqi) (fun x hx hxi =>
        Database.project_eq_of_id hx hq ((of_decide_eq_true hxi).trans hqi.symm))
    rw [Table.filter_eq_singleton h.token hp hu, if_pos rfl, recordsFor, ← h.patterns, List.map_map]
    simp [Database.recordsOfToken, hone, Function.comp_def]

theorem byId (h : Stored db t slug refPatterns) (active : AccessTokenRow → Bool) :
    db.accessTokenRecords (fun x => x.id = t.id && active x) =
      if active t then recordsFor t slug refPatterns else [] := by
  rw [h.accessTokenRecords (fun x hx hpx => ?_)]
  · simp
  · rw [Bool.and_eq_true, decide_eq_true_eq] at hpx
    exact Table.eq_of_clash hx h.token (by simp [Keyed.clash, hpx.1])

theorem byHash (h : Stored db t slug refPatterns) (active : AccessTokenRow → Bool) :
    db.accessTokenRecords (fun x => x.tokenHash = t.tokenHash && active x) =
      if active t then recordsFor t slug refPatterns else [] := by
  rw [h.accessTokenRecords (fun x hx hpx => ?_)]
  · simp
  · rw [Bool.and_eq_true, decide_eq_true_eq] at hpx
    exact Table.eq_of_clash hx h.token (by simp [Keyed.clash, hpx.1])

theorem of_insert {id : Uuid} {tokenHash name : Text} {projectId : Uuid}
    {expiresAt : Option OffsetDateTime} {given : List Text} {createdAt : SqliteTime}
    {db' : Database} (h : Stored db t slug refPatterns)
    (hi : db.insertAccessToken ⟨id, tokenHash, name, projectId, createdAt, expiresAt, none⟩ given =
      some db') : Stored db' t slug refPatterns := by
  obtain ⟨-, u, r, rfl, hu, hr⟩ := insertAccessToken_eq_some hi
  have hne : id ≠ t.id := by
    rintro rfl
    obtain ⟨hf, -⟩ := Table.insert_eq_some.mp hu
    simpa [Keyed.clash] using hf t h.token
  refine ⟨(Table.mem_of_insert hu).mpr (Or.inl h.token), h.project, ?_⟩
  rw [insertPatterns_rows hr, List.filter_append, List.filter_map]
  simpa [Function.comp_def, hne] using h.patterns

theorem carryOut {c : Call} {e : Env} {w : World} (h : Stored w.db t slug refPatterns)
    (hc : ∀ revokedAt, c ≠ .revokeAccessToken t.id revokedAt) :
    Stored (carryOut c e w).1.db t slug refPatterns := by
  have hproject : ∃ p ∈ (Depot.carryOut c e w).1.db.projects.rows,
      p.id = t.projectId ∧ p.slug = slug := by
    obtain ⟨p, hp, hi, hs⟩ := h.project
    obtain ⟨q, hq, hqi, hqs⟩ := (carryOut_grows c e w).projects p hp
    exact ⟨q, hq, hqi.trans hi, hqs.trans hs⟩
  have hframe := carryOut_frame c e w
  cases c with
  | insertAccessToken id tokenHash name projectId expiresAt given =>
    simp only [Depot.carryOut]
    cases hr : w.db.insertAccessToken
      ⟨id, tokenHash, name, projectId, e.sqliteNow, expiresAt, none⟩ given with
    | none => exact h
    | some db' => exact h.of_insert hr
  | revokeAccessToken id revokedAt =>
    have hne : t.id ≠ id := fun hid => hc revokedAt (hid ▸ rfl)
    refine ⟨?_, hproject, h.patterns⟩
    exact Table.mem_update_of_neg (fun x => x.id = id && x.revokedAt.isNone)
      (Database.markRevoked revokedAt) ⟨fun _ _ => rfl⟩ h.token (by simp [hne])
  | _ =>
    refine ⟨?_, hproject, ?_⟩
    · exact hframe.accessTokens (by simp [Call.writes]) ▸ h.token
    · exact hframe.accessTokenRefPatterns (by simp [Call.writes]) ▸ h.patterns

end Stored

def Unrevoked (created : CreatedAccessToken) : World → World → Prop :=
  Relation.ReflTransGen (fun a b => ∃ c e, b = (answer c e a).1 ∧
    ∀ r ∈ created.records, ∀ revokedAt, c ≠ .revokeAccessToken r.id revokedAt)

theorem Stored.unrevoked {created : CreatedAccessToken} {a b : World} {t : AccessTokenRow}
    {slug : ProjectSlug} {refPatterns : List Text} (h : Stored a.db t slug refPatterns)
    (hr : ∃ r ∈ created.records, r.id = t.id) (hl : Unrevoked created a b) :
    Stored b.db t slug refPatterns := by
  obtain ⟨r, hr, hid⟩ := hr
  induction hl with
  | refl => exact h
  | tail _ hstep ih =>
    obtain ⟨c, e, rfl, hc⟩ := hstep
    rcases answer_state c e _ with hs | hs
    · rw [hs]
      exact ih
    · rw [hs]
      exact ih.carryOut (fun revokedAt => hid ▸ hc r hr revokedAt)

theorem normalizePatterns_ne_nil (refPatterns : List Text) :
    normalizePatterns refPatterns ≠ [] := by
  unfold normalizePatterns
  split
  · simp
  · assumption

theorem mem_recordsFor {t : AccessTokenRow} {slug : ProjectSlug} {refPatterns : List Text}
    {r : AccessTokenRecord} (h : r ∈ recordsFor t slug refPatterns) : r.id = t.id := by
  rw [recordsFor, List.mem_insertionSort, List.mem_map] at h
  obtain ⟨_, -, rfl⟩ := h
  rfl

theorem recordsFor_ne_nil {t : AccessTokenRow} {slug : ProjectSlug} {refPatterns : List Text}
    (h : refPatterns ≠ []) : recordsFor t slug refPatterns ≠ [] := by
  intro hnil
  have := congrArg List.length hnil
  simp only [recordsFor, List.length_insertionSort, List.length_map, List.length_nil,
    List.length_eq_zero_iff] at this
  exact h this

section

variable [Sha256]

structure CreatedWith (expiresAt : Option OffsetDateTime) (created : CreatedAccessToken)
    (w : World) (t : AccessTokenRow) (slug : ProjectSlug) (refPatterns : List Text) : Prop where
  stored : Stored w.db t slug refPatterns
  nonempty : refPatterns ≠ []
  tokenHash : t.tokenHash = hashAccessToken created.token
  expires : t.expiresAt = expiresAt
  unrevoked : t.revokedAt = none
  records : created.records = recordsFor t slug refPatterns

theorem createdWith_of_insert {db db' : Database} {blobs : StorageId → Text → Option Blob}
    {row : AccessTokenRow} {token : Text} {expiresAt : Option OffsetDateTime} {given : List Text}
    (h : db.insertAccessToken row given = some db') (hg : given ≠ [])
    (ht : row.tokenHash = hashAccessToken token) (he : row.expiresAt = expiresAt)
    (hr : row.revokedAt = none) :
    (∀ x ∈ db.accessTokens.rows, x.id ≠ row.id) ∧ ∃ slug, CreatedWith expiresAt
      ⟨token, db'.accessTokenRecords (fun t => t.id = row.id)⟩ ⟨db', blobs⟩ row slug
      (patternsOf db row.id ++ given) := by
  obtain ⟨⟨p, hp, hpi⟩, u, r, rfl, hu, hrows⟩ := insertAccessToken_eq_some h
  have hpatterns : (r.rows.filter (fun q => q.tokenId = row.id)).map
      AccessTokenRefPatternRow.refPattern = patternsOf db row.id ++ given := by
    rw [insertPatterns_rows hrows, List.filter_append, List.filter_map]
    simp [patternsOf, Function.comp_def]
  have hstored : Stored { db with accessTokens := u, accessTokenRefPatterns := r } row p.slug
      (patternsOf db row.id ++ given) :=
    ⟨(Table.mem_of_insert hu).mpr (Or.inr rfl), ⟨p, hp, hpi, rfl⟩, hpatterns⟩
  constructor
  · intro x hx hid
    obtain ⟨hf, -⟩ := Table.insert_eq_some.mp hu
    simpa [Keyed.clash, hid] using hf x hx
  · have hall := hstored.byId (fun _ => true)
    exact ⟨p.slug, hstored, by simp [hg], ht, he, hr, by simpa using hall⟩

theorem createAccessToken_spec (name : Text) (project : ProjectSlug) (refPatterns : List Text)
    (expiresAt : Option OffsetDateTime) (w : World) :
    machine.wp (fun _ => True) (fun r v => ∀ created, r = .ok created →
      ∃ t, (∀ x ∈ w.db.accessTokens.rows, x.id ≠ t.id) ∧ ∃ slug,
        CreatedWith expiresAt created v t slug
          (patternsOf w.db t.id ++ normalizePatterns refPatterns))
      (createAccessToken name project refPatterns expiresAt) w := by
  unfold createAccessToken
  split
  · simp [Depot.fail]
  · simp only [Prog.bind_eq, Prog.pure_eq, projectIdBySlug, generateAccessToken, Machine.wp_bind]
    refine wp_select ?_ (by simp)
    refine wp_orFail (fun projectId hproject => ?_) (by simp)
    refine wp_uuid (fun tokenEnv _ => wp_uuid (fun first _ => wp_uuid (fun second _ => ?_)))
    refine wp_perform_of (fun e _ r hr => ?_) (by simp)
    refine wp_select ?_ (by simp)
    rintro created ⟨⟩
    obtain ⟨db', hdb, hw⟩ := World.written_ok hr
    simp only [Depot.carryOut, hw]
    exact ⟨_, createdWith_of_insert hdb (normalizePatterns_ne_nil refPatterns) rfl rfl rfl⟩

theorem exec_listActiveByToken {es : Nat → Env} (hes : ∀ n, (es n).outcome = .answered)
    (token : Text) (w : World) :
    (machine.exec (listActiveAccessTokenRecordsByToken token) es w).2 =
      .ok (w.db.accessTokenRecords (fun t => t.tokenHash = hashAccessToken token &&
        Database.activeAt (es 0).now t)) := by
  have h := answer_of_answered (hes 1) (c := .select (fun _ db => db.accessTokenRecords
    (fun t => t.tokenHash = hashAccessToken token && Database.activeAt (es 0).now t))) (w := w)
  exact congrArg Prod.snd h

omit [Sha256] in
theorem exec_listActiveById {es : Nat → Env} (hes : ∀ n, (es n).outcome = .answered)
    (id : Uuid) (w : World) :
    (machine.exec (listActiveAccessTokenRecordsById id) es w).2 =
      .ok (w.db.accessTokenRecords (fun t => t.id = id && Database.activeAt (es 0).now t)) := by
  have h := answer_of_answered (hes 1) (c := .select (fun _ db => db.accessTokenRecords
    (fun t => t.id = id && Database.activeAt (es 0).now t))) (w := w)
  exact congrArg Prod.snd h

theorem CreatedWith.activeAt {e : OffsetDateTime} {created : CreatedAccessToken} {w : World}
    {t : AccessTokenRow} {slug : ProjectSlug} {refPatterns : List Text} (now : UtcDateTime)
    (h : CreatedWith (some e) created w t slug refPatterns) :
    Database.activeAt now t = true ↔ now.format < e.format := by
  simp [Database.activeAt, h.expires, h.unrevoked]

theorem CreatedWith.answers {e : OffsetDateTime} {created : CreatedAccessToken} {w : World}
    {t : AccessTokenRow} {slug : ProjectSlug} {refPatterns : List Text}
    {records : List AccessTokenRecord} (h : CreatedWith (some e) created w t slug refPatterns)
    (now : UtcDateTime)
    (hr : records = if Database.activeAt now t then recordsFor t slug refPatterns else []) :
    (Except.ok records : Except Error _) = .ok created.records ↔ now.format < e.format := by
  rw [← h.activeAt, Except.ok.injEq, hr, h.records]
  cases Database.activeAt now t with
  | true => simp
  | false => simpa using (recordsFor_ne_nil h.nonempty).symm

theorem active_iff_textDecides (name : Text) (project : ProjectSlug) (refPatterns : List Text)
    (e : OffsetDateTime) (es later : Nat → Env) (v w : World) (created : CreatedAccessToken)
    (hcreated : (machine.exec (createAccessToken name project refPatterns (some e)) es v).2 =
      .ok created)
    (hlater : Unrevoked created
      (machine.exec (createAccessToken name project refPatterns (some e)) es v).1 w)
    (hanswered : ∀ n, (later n).outcome = .answered) :
    (((machine.exec (listActiveAccessTokenRecordsByToken created.token) later w).2 =
          .ok created.records ↔ (later 0).now.instant < e.instant) ∧
      ∀ r ∈ created.records,
        ((machine.exec (listActiveAccessTokenRecordsById r.id) later w).2 =
          .ok created.records ↔ (later 0).now.instant < e.instant)) ↔
      e.TextDecides (later 0).now.toOffset := by
  obtain ⟨t, -, slug, hc⟩ :=
    Machine.exec_of_wp (createAccessToken_spec name project refPatterns (some e) v)
      (fun _ => trivial) created hcreated
  obtain ⟨r, hr⟩ := List.exists_mem_of_ne_nil _ (hc.records ▸ recordsFor_ne_nil hc.nonempty)
  have hid : ∀ r ∈ created.records, r.id = t.id := fun r hr => mem_recordsFor (hc.records ▸ hr)
  have hs := hc.stored.unrevoked ⟨r, hr, hid r hr⟩ hlater
  have htoken := hc.answers (later 0).now rfl
  have hdecide : ((later 0).now.format < e.format ↔ (later 0).now.instant < e.instant) ↔
      e.TextDecides (later 0).now.toOffset := OffsetDateTime.format_decides_iff rfl
  rw [exec_listActiveByToken hanswered, ← hc.tokenHash, hs.byHash, htoken, hdecide,
    and_iff_left_iff_imp]
  intro hd q hq
  rw [exec_listActiveById hanswered, hid q hq, hs.byId, htoken]
  exact hdecide.mpr hd

end

section

@[reducible] def exampleSha256 : Sha256 where
  digest := fun _ =>
    [184, 19, 167, 112, 194, 158, 219, 239, 247, 144, 12, 231, 97, 237, 86, 213, 254, 232, 151, 99,
     127, 99, 215, 115, 146, 81, 9, 123, 199, 212, 175, 141]

attribute [local instance] exampleSha256

def exampleProject : ProjectSlug := exampleSlug

def exampleWorld : World where
  db := { projects := .single ⟨0, exampleProject, "Example".toList, true, .main⟩ }
  blobs := fun _ _ => none

def exampleCreation : Env :=
  .quiet (.newYear 2029 0) 1

def exampleExpiry : OffsetDateTime :=
  { (UtcDateTime.whole (.newYear 2030 12)).toOffset with offset := 720, offset_lt := by decide }

def exampleLater : Env :=
  .quiet (.newYear 2030 6) 2

def exampleCreated : CreatedAccessToken where
  token := "npc_0000000000000000000000000000000100000000000000000000000000000001".toList
  records := [⟨1, "ci".toList, exampleProject, none, exampleCreation.sqliteNow,
    some exampleExpiry, none⟩]

theorem example_created :
    (machine.exec (createAccessToken "ci".toList exampleProject [] (some exampleExpiry))
      (fun _ => exampleCreation) exampleWorld).2 = .ok exampleCreated := by
  decide +kernel

theorem example_active_iff :
    (((machine.exec (listActiveAccessTokenRecordsByToken exampleCreated.token)
            (fun _ => exampleLater)
            (machine.exec (createAccessToken "ci".toList exampleProject [] (some exampleExpiry))
              (fun _ => exampleCreation) exampleWorld).1).2 = .ok exampleCreated.records ↔
          exampleLater.now.instant < exampleExpiry.instant) ∧
      ∀ r ∈ exampleCreated.records,
        ((machine.exec (listActiveAccessTokenRecordsById r.id) (fun _ => exampleLater)
            (machine.exec (createAccessToken "ci".toList exampleProject [] (some exampleExpiry))
              (fun _ => exampleCreation) exampleWorld).1).2 = .ok exampleCreated.records ↔
          exampleLater.now.instant < exampleExpiry.instant)) ↔
      exampleExpiry.TextDecides exampleLater.now.toOffset :=
  active_iff_textDecides "ci".toList exampleProject [] exampleExpiry _ _ _ _ exampleCreated
    example_created Relation.ReflTransGen.refl (fun _ => rfl)

theorem example_active_after_expiry :
    exampleExpiry.instant < exampleLater.now.instant ∧
      (machine.exec (listActiveAccessTokenRecordsByToken exampleCreated.token)
        (fun _ => exampleLater)
        (machine.exec (createAccessToken "ci".toList exampleProject [] (some exampleExpiry))
          (fun _ => exampleCreation) exampleWorld).1).2 = .ok exampleCreated.records := by
  decide +kernel

end

end TokenExpiry
