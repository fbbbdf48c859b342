import ProjectCache.Access.Scope

namespace Restrictions

open Textual Nix Project Calendar Tables Store Db Programs Auth Depot SqliteDatabase Access
open Confinement Scope TokenExpiry

def Afterwards : World → World → Prop :=
  Relation.ReflTransGen (fun a b => ∃ c e, b = (answer c e a).1)

def Reachable (w : World) : Prop := ∃ blobs, Afterwards ⟨{}, blobs⟩ w

theorem Afterwards.invariant {invariant : World → Prop} {a b : World} (h : Afterwards a b)
    (hstep : ∀ c e w, invariant w → invariant (carryOut c e w).1) (ha : invariant a) :
    invariant b := by
  induction h with
  | refl => exact ha
  | tail _ hs ih =>
    obtain ⟨c, e, rfl⟩ := hs
    rcases answer_state c e _ with hw | hw
    · exact hw ▸ ih
    · exact hw ▸ hstep c e _ ih

def PatternsOwned (db : Database) : Prop :=
  ∀ r ∈ db.accessTokenRefPatterns.rows, ∃ t ∈ db.accessTokens.rows, t.id = r.tokenId

structure TokenPatterns (db : Database) (tokenId : Uuid) (given : List Text) : Prop where
  token : ∃ t ∈ db.accessTokens.rows, t.id = tokenId
  patterns : ∀ r ∈ db.accessTokenRefPatterns.rows, r.tokenId = tokenId → r.refPattern ∈ given

theorem tokens_kept {c : Call} {e : Env} {w : World} {t : AccessTokenRow}
    (h : t ∈ w.db.accessTokens.rows) :
    ∃ u ∈ (carryOut c e w).1.db.accessTokens.rows, u.id = t.id := by
  have hframe := carryOut_frame c e w
  cases c with
  | insertAccessToken id tokenHash name projectId expiresAt given =>
    simp only [carryOut]
    cases hr : w.db.insertAccessToken
      ⟨id, tokenHash, name, projectId, e.sqliteNow, expiresAt, none⟩ given with
    | none => exact ⟨t, h, rfl⟩
    | some db' =>
      obtain ⟨-, u, r, rfl, hu, -⟩ := insertAccessToken_eq_some hr
      exact ⟨t, (Table.mem_of_insert hu).mpr (.inl h), rfl⟩
  | revokeAccessToken id revokedAt =>
    have hmap : (if t.id = id && t.revokedAt.isNone then Database.markRevoked revokedAt t else t) ∈
        (carryOut (.revokeAccessToken id revokedAt) e w).1.db.accessTokens.rows :=
      List.mem_map_of_mem h
    refine ⟨_, hmap, ?_⟩
    split <;> rfl
  | _ => exact ⟨t, hframe.accessTokens (by simp [Call.writes]) ▸ h, rfl⟩

theorem patterns_after {c : Call} {e : Env} {w : World} {r : AccessTokenRefPatternRow}
    (h : r ∈ (carryOut c e w).1.db.accessTokenRefPatterns.rows) :
    r ∈ w.db.accessTokenRefPatterns.rows ∨
      (∀ t ∈ w.db.accessTokens.rows, t.id ≠ r.tokenId) ∧
        ∃ t ∈ (carryOut c e w).1.db.accessTokens.rows, t.id = r.tokenId := by
  have hframe := carryOut_frame c e w
  cases c with
  | insertAccessToken id tokenHash name projectId expiresAt given =>
    simp only [carryOut] at h ⊢
    cases hr : w.db.insertAccessToken
      ⟨id, tokenHash, name, projectId, e.sqliteNow, expiresAt, none⟩ given with
    | none =>
      rw [hr] at h
      exact .inl h
    | some db' =>
      rw [hr] at h
      obtain ⟨-, u, p, rfl, hu, hp⟩ := insertAccessToken_eq_some hr
      simp only [World.written, insertPatterns_rows hp, List.mem_append, List.mem_map] at h ⊢
      rcases h with h | ⟨pattern, -, rfl⟩
      · exact .inl h
      · refine .inr ⟨fun t ht hid => ?_, _, (Table.mem_of_insert hu).mpr (.inr rfl), rfl⟩
        obtain ⟨hf, -⟩ := Table.insert_eq_some.mp hu
        simpa [Keyed.clash, hid] using hf t ht
  | _ => exact .inl (hframe.accessTokenRefPatterns (by simp [Call.writes]) ▸ h)

theorem Reachable.patternsOwned {w : World} (h : Reachable w) : PatternsOwned w.db := by
  obtain ⟨blobs, h⟩ := h
  refine @Afterwards.invariant (fun w => PatternsOwned w.db) _ _ h (fun c e w hw r hr => ?_)
    (fun r hr => nomatch hr)
  rcases patterns_after hr with hr | ⟨-, ht⟩
  · obtain ⟨t, ht, hid⟩ := hw r hr
    obtain ⟨u, hu, hut⟩ := tokens_kept (c := c) (e := e) ht
    exact ⟨u, hu, hut.trans hid⟩
  · exact ht

theorem TokenPatterns.afterwards {a b : World} {tokenId : Uuid} {given : List Text}
    (h : TokenPatterns a.db tokenId given) (hl : Afterwards a b) :
    TokenPatterns b.db tokenId given := by
  refine @Afterwards.invariant (fun w => TokenPatterns w.db tokenId given) _ _ hl
    (fun c e w hw => ?_) h
  obtain ⟨t, ht, hid⟩ := hw.token
  obtain ⟨u, hu, hut⟩ := tokens_kept (c := c) (e := e) ht
  refine ⟨⟨u, hu, hut.trans hid⟩, fun r hr hrid => ?_⟩
  rcases patterns_after hr with hr | ⟨hfresh, -⟩
  · exact hw.patterns r hr hrid
  · exact absurd (hid.trans hrid.symm) (hfresh t ht)

def shown (refPattern : Text) : Option Text := if refPattern = [] then none else some refPattern

theorem refPattern_of_record {db : Database} {p : AccessTokenRow → Bool}
    {record : AccessTokenRecord} (h : record ∈ db.accessTokenRecords p) :
    ∃ t ∈ db.accessTokens.rows, p t = true ∧ ∃ r ∈ db.accessTokenRefPatterns.rows,
      r.tokenId = t.id ∧ record.refPattern = shown r.refPattern := by
  rw [Database.accessTokenRecords, List.mem_insertionSort, List.mem_flatMap] at h
  obtain ⟨t, ht, hrecord⟩ := h
  obtain ⟨ht, hp⟩ := List.mem_filter.mp ht
  simp only [Database.recordsOfToken, List.mem_flatMap, List.mem_map, List.mem_filter,
    decide_eq_true_eq] at hrecord
  obtain ⟨project, -, r, ⟨hr, hid⟩, rfl⟩ := hrecord
  exact ⟨t, ht, hp, r, hr, hid, rfl⟩

theorem mem_trimmedPatterns {refPatterns : List Text} {q : Text} :
    q ∈ trimmedPatterns refPatterns ↔ q ≠ [] ∧ ∃ pattern ∈ refPatterns, trim pattern = q := by
  rw [trimmedPatterns, List.mem_dedup, (sortTexts_perm _).mem_iff, List.mem_filter, List.mem_map,
    decide_eq_true_eq, and_comm]

theorem trimmedPatterns_eq_nil_iff {refPatterns : List Text} :
    trimmedPatterns refPatterns = [] ↔ ¬ ∃ pattern ∈ refPatterns, trim pattern ≠ [] := by
  rw [List.eq_nil_iff_forall_not_mem]
  constructor
  · rintro h ⟨pattern, hp, hne⟩
    exact h _ (mem_trimmedPatterns.mpr ⟨hne, pattern, hp, rfl⟩)
  · intro h q hq
    obtain ⟨hne, pattern, hp, rfl⟩ := mem_trimmedPatterns.mp hq
    exact h ⟨pattern, hp, hne⟩

theorem mem_normalizePatterns {refPatterns : List Text}
    (h : ∃ pattern ∈ refPatterns, trim pattern ≠ []) {q : Text} :
    q ∈ normalizePatterns refPatterns ↔ q ≠ [] ∧ ∃ pattern ∈ refPatterns, trim pattern = q := by
  rw [normalizePatterns, if_neg (fun hn => trimmedPatterns_eq_nil_iff.mp hn h),
    mem_trimmedPatterns]

theorem normalizePatterns_of_blank {refPatterns : List Text}
    (h : ¬ ∃ pattern ∈ refPatterns, trim pattern ≠ []) : normalizePatterns refPatterns = [[]] :=
  if_pos (trimmedPatterns_eq_nil_iff.mpr h)

def MatchedBy [WildMatch] (refPatterns : List Text) (refName : Text) : Prop :=
  ∃ pattern ∈ refPatterns, WildMatch.isMatch (trim pattern) refName = true

theorem matchedBy_of_allowed [WildMatch] {refPatterns : List Text} {refName q : Text}
    (h : ∃ pattern ∈ refPatterns, trim pattern ≠ []) (hq : q ∈ normalizePatterns refPatterns)
    (ha : RefAllowed (shown q) refName) : MatchedBy refPatterns refName := by
  obtain ⟨hne, pattern, hp, rfl⟩ := (mem_normalizePatterns h).mp hq
  exact ⟨pattern, hp, ha _ (if_neg hne)⟩

section

variable [WildMatch] [Sha256]

structure TokenRestricted (refPatterns : List Text) (created : CreatedAccessToken) (w : World) :
    Prop where
  authorizes : ∀ later, Afterwards w later → ∀ identity token,
    identity.kind = .accessToken token → (∃ record ∈ created.records, record.id = token.tokenId) →
    ∀ project refName es p,
      (machine.exec (authorizeProjectRef identity project refName) es later).2 = .ok p →
      MatchedBy refPatterns refName
  restricted : ∀ record ∈ created.records, record.refPattern ≠ none

theorem tokenRestricted_iff {w : World} (hw : Reachable w) (name : Text) (project : ProjectSlug)
    (refPatterns : List Text) (expiresAt : Option OffsetDateTime) (es : Nat → Env)
    (created : CreatedAccessToken)
    (hc : (machine.exec (createAccessToken name project refPatterns expiresAt) es w).2 =
      .ok created) :
    TokenRestricted refPatterns created
        (machine.exec (createAccessToken name project refPatterns expiresAt) es w).1 ↔
      ∃ pattern ∈ refPatterns, trim pattern ≠ [] := by
  obtain ⟨t, hfresh, slug, h⟩ := Machine.exec_of_wp
    (createAccessToken_spec name project refPatterns expiresAt w) (fun _ => trivial) created hc
  have hnone : patternsOf w.db t.id = [] := by
    rw [patternsOf, List.map_eq_nil_iff, List.filter_eq_nil_iff]
    intro r hr hid
    obtain ⟨u, hu, huid⟩ := hw.patternsOwned r hr
    exact hfresh u hu (huid.trans (of_decide_eq_true hid))
  rw [hnone, List.nil_append] at h
  have hrecords (q : Option Text) : (∃ record ∈ created.records, record.refPattern = q) ↔
      ∃ pattern ∈ normalizePatterns refPatterns, q = shown pattern := by
    rw [h.records]
    simp [recordsFor, shown, eq_comm]
  constructor
  · intro hr
    by_contra hblank
    obtain ⟨record, hrecord, hpattern⟩ := (hrecords none).mpr
      ⟨[], by simp [normalizePatterns_of_blank hblank], rfl⟩
    exact hr.restricted record hrecord hpattern
  · intro hsome
    refine ⟨?_, ?_⟩
    · intro later hlater identity token hk hid project' refName es' p hp
      obtain ⟨record, hrecord, hid⟩ := hid
      have htoken : token.tokenId = t.id := by
        rw [← hid]
        exact mem_recordsFor (h.records ▸ hrecord)
      have hpatterns : TokenPatterns later.db t.id (normalizePatterns refPatterns) := by
        refine TokenPatterns.afterwards ⟨⟨t, h.stored.token, rfl⟩, fun r hr hrid => ?_⟩ hlater
        rw [← h.stored.patterns]
        exact List.mem_map_of_mem (List.mem_filter.mpr ⟨hr, decide_eq_true hrid⟩)
      have hne : identity.kind ≠ .bootstrapAdmin := by
        rw [hk]
        exact fun hn => by cases hn
      obtain ⟨patterns, hpne, -, hall⟩ := Machine.exec_of_wp_any es'
        (wp_authorizeProjectRef hne refName) p hp
      obtain ⟨pattern, hmem⟩ := List.exists_mem_of_ne_nil _ hpne
      obtain ⟨hgranted, hallowed⟩ := hall pattern hmem
      cases hgranted with
      | oidc hk' => cases hk.symm.trans hk'
      | accessToken hk' _ hrecord' _ =>
        cases hk.symm.trans hk'
        obtain ⟨u, -, hu, r, hr, hrid, hshown⟩ := refPattern_of_record hrecord'
        have huid : u.id = t.id := by
          rw [Bool.and_eq_true, decide_eq_true_eq] at hu
          exact hu.1.trans htoken
        exact matchedBy_of_allowed hsome (hpatterns.patterns r hr (hrid.trans huid))
          (hshown ▸ hallowed)
    · intro record hrecord hn
      obtain ⟨q, hq, hshown⟩ := (hrecords none).mp ⟨record, hrecord, hn⟩
      obtain ⟨hne, -⟩ := (mem_normalizePatterns hsome).mp hq
      rw [shown, if_neg hne] at hshown
      cases hshown

end

theorem insertIdentities_rows {projectId : Uuid} {provider repository : Text}
    {refPatterns : List Text} {t u : Table ProjectOidcIdentityRow}
    (h : Database.insertIdentities projectId provider repository refPatterns t = some u) :
    u.rows = t.rows ++ refPatterns.map (fun r => ⟨projectId, provider, repository, r⟩) := by
  induction refPatterns generalizing t with
  | nil =>
    cases h
    simp
  | cons r rest ih =>
    obtain ⟨v, hv, hu⟩ := Option.bind_eq_some_iff.mp h
    obtain ⟨hf, rfl⟩ := Table.insert_eq_some.mp hv
    rw [ih hu]
    simp [Table.add]

theorem mem_replaceOidcIdentity {db db' : Database} {projectId : Uuid}
    {provider repository : Text} {refPatterns : List Text}
    (h : db.replaceOidcIdentity projectId provider repository refPatterns = some db')
    {row : ProjectOidcIdentityRow} : row ∈ db'.projectOidcIdentities.rows ↔
      (row ∈ db.projectOidcIdentities.rows ∧
        Database.bindingOf projectId provider repository row = false) ∨
      ∃ r ∈ refPatterns, row = ⟨projectId, provider, repository, r⟩ := by
  unfold Database.replaceOidcIdentity at h
  split at h
  · obtain ⟨u, hu, rfl⟩ := Option.map_eq_some_iff.mp h
    rw [insertIdentities_rows hu, List.mem_append, Table.mem_delete, List.mem_map]
    simp only [eq_comm]
  · cases h

theorem mem_matchingIdentities {db : Database} {provider repository : Text}
    {binding : ProjectOidcIdentityRecord} :
    binding ∈ db.matchingIdentities provider repository ↔
      ∃ row ∈ db.projectOidcIdentities.rows, row.provider = provider ∧
        row.repository = repository ∧ ∃ p ∈ db.projects.rows, p.id = row.projectId ∧
          binding = ⟨p.slug, row.provider, row.repository, shown row.refPattern⟩ := by
  rw [Database.matchingIdentities, List.mem_insertionSort, List.mem_flatMap]
  simp only [Database.identityRecords, List.mem_filter, List.mem_map, Bool.and_eq_true,
    decide_eq_true_eq, shown, and_assoc, eq_comm (b := binding)]

def BoundTo (db : Database) (project : ProjectSlug) (provider repository : Text)
    (given : List Text) : Prop :=
  ∃ p ∈ db.projects.rows, p.slug = project ∧ ∀ row ∈ db.projectOidcIdentities.rows,
    Database.bindingOf p.id provider repository row = true → row.refPattern ∈ given

def Kept (project : ProjectSlug) (provider repository : Text) : World → World → Prop :=
  Relation.ReflTransGen (fun a b => ∃ c e, b = (answer c e a).1 ∧
    ∀ p ∈ a.db.projects.rows, p.slug = project → ∀ given,
      c ≠ .replaceOidcIdentity p.id provider repository given)

theorem BoundTo.carryOut {project : ProjectSlug} {provider repository : Text} {given : List Text}
    {c : Call} {e : Env} {w : World} (h : BoundTo w.db project provider repository given)
    (hc : ∀ p ∈ w.db.projects.rows, p.slug = project → ∀ given,
      c ≠ .replaceOidcIdentity p.id provider repository given) :
    BoundTo (carryOut c e w).1.db project provider repository given := by
  obtain ⟨p, hp, hslug, hrows⟩ := h
  obtain ⟨q, hq, hid, hqslug⟩ := (carryOut_grows c e w).projects p hp
  refine ⟨q, hq, hqslug.trans hslug, fun row hrow hb => ?_⟩
  rw [hid] at hb
  have hframe := carryOut_frame c e w
  cases c with
  | replaceOidcIdentity projectId provider' repository' patterns =>
    simp only [Depot.carryOut] at hrow
    cases hr : w.db.replaceOidcIdentity projectId provider' repository' patterns with
    | none =>
      rw [hr] at hrow
      exact hrows row hrow hb
    | some db' =>
      rw [hr] at hrow
      rcases (mem_replaceOidcIdentity hr).mp hrow with ⟨hmem, -⟩ | ⟨r, -, rfl⟩
      · exact hrows row hmem hb
      · simp only [Database.bindingOf, Bool.and_eq_true, decide_eq_true_eq] at hb
        obtain ⟨⟨rfl, rfl⟩, rfl⟩ := hb
        exact absurd rfl (hc p hp hslug patterns)
  | deleteOidcIdentity projectId provider' repository' =>
    exact hrows row (Table.mem_delete.mp hrow).1 hb
  | _ => exact hrows row (hframe.projectOidcIdentities (by simp [Call.writes]) ▸ hrow) hb

theorem BoundTo.kept {project : ProjectSlug} {provider repository : Text} {given : List Text}
    {a b : World} (h : BoundTo a.db project provider repository given)
    (hl : Kept project provider repository a b) :
    BoundTo b.db project provider repository given := by
  induction hl with
  | refl => exact h
  | tail _ hs ih =>
    obtain ⟨c, e, rfl, hc⟩ := hs
    rcases answer_state c e _ with hw | hw
    · exact hw ▸ ih
    · exact hw ▸ ih.carryOut hc

theorem BoundTo.shown {db : Database} {project : ProjectSlug} {provider repository : Text}
    {given : List Text} (h : BoundTo db project provider repository given)
    {binding : ProjectOidcIdentityRecord}
    (hb : binding ∈ db.matchingIdentities provider repository)
    (hslug : binding.projectSlug = project) : ∃ q ∈ given, binding.refPattern = shown q := by
  obtain ⟨p, hp, hpslug, hrows⟩ := h
  obtain ⟨row, hrow, hprovider, hrepository, q, hq, hqid, rfl⟩ := mem_matchingIdentities.mp hb
  have hsame : q.slug = p.slug := hslug.trans hpslug.symm
  have hqp : q = p := Table.eq_of_clash hq hp (by simp [Keyed.clash, hsame])
  refine ⟨row.refPattern, hrows row hrow ?_, rfl⟩
  simp [Database.bindingOf, hprovider, hrepository, ← hqp, hqid]

theorem wp_replaceProjectOidcIdentity (project : ProjectSlug) (provider repository : Text)
    (refPatterns : List Text) (w : World) :
    machine.wp (fun _ => True) (fun r v => r = .ok () →
      BoundTo v.db project (trim provider) (trim repository) (normalizePatterns refPatterns) ∧
      ∀ q ∈ normalizePatterns refPatterns,
        ⟨project, trim provider, trim repository, shown q⟩ ∈
          v.db.matchingIdentities (trim provider) (trim repository))
      (replaceProjectOidcIdentity project provider repository refPatterns) w := by
  unfold replaceProjectOidcIdentity
  split
  · exact fun h => nomatch h
  split
  · exact fun h => nomatch h
  simp only [Prog.bind_eq, projectIdBySlug, Machine.wp_bind]
  refine wp_select ?_ (by simp)
  refine wp_orFail (fun projectId hproject => ?_) (by simp)
  have hsame : normalizedPatterns refPatterns = normalizePatterns refPatterns := rfl
  rw [hsame]
  refine wp_perform_of (c := .replaceOidcIdentity projectId (trim provider) (trim repository)
    (normalizePatterns refPatterns)) (fun e _ r hr => ?_) (by simp)
  rintro -
  obtain ⟨p, hp, rfl⟩ := Option.map_eq_some_iff.mp hproject
  obtain ⟨hmem, hslug⟩ := Database.projectBySlug_eq_some.mp hp
  obtain ⟨db', hdb, hw⟩ := World.written_ok hr
  simp only [carryOut, hw]
  obtain ⟨u, rfl⟩ := replaceOidcIdentity_eq_some hdb
  constructor
  · refine ⟨p, hmem, hslug, fun row hrow hb => ?_⟩
    rcases (mem_replaceOidcIdentity hdb).mp hrow with ⟨-, hnot⟩ | ⟨q, hq, rfl⟩
    · rw [hb] at hnot
      cases hnot
    · exact hq
  · intro q hq
    exact mem_matchingIdentities.mpr ⟨_, (mem_replaceOidcIdentity hdb).mpr (.inr ⟨q, hq, rfl⟩), rfl,
      rfl, p, hmem, rfl, by rw [hslug]⟩

section

variable [WildMatch]

structure BindingRestricted (project : ProjectSlug) (provider repository : Text)
    (refPatterns : List Text) (w : World) : Prop where
  authorizes : ∀ later, Kept project provider repository w later → ∀ identity oidc,
    identity.kind = .oidc oidc → identity.provider = some provider →
    oidc.repository = some repository → ∀ refName es p,
      (machine.exec (authorizeProjectRef identity project refName) es later).2 = .ok p →
      MatchedBy refPatterns refName
  restricted : ∀ binding ∈ w.db.matchingIdentities provider repository,
    binding.projectSlug = project → binding.refPattern ≠ none

theorem bindingRestricted_iff (w : World) (project : ProjectSlug) (provider repository : Text)
    (refPatterns : List Text) (es : Nat → Env)
    (hr : (machine.exec (replaceProjectOidcIdentity project provider repository refPatterns) es
      w).2 = .ok ()) :
    BindingRestricted project (trim provider) (trim repository) refPatterns
        (machine.exec (replaceProjectOidcIdentity project provider repository refPatterns) es
          w).1 ↔
      ∃ pattern ∈ refPatterns, trim pattern ≠ [] := by
  obtain ⟨hbound, hmem⟩ := Machine.exec_of_wp
    (wp_replaceProjectOidcIdentity project provider repository refPatterns w)
    (fun _ => trivial) hr
  constructor
  · intro h
    by_contra hblank
    have hnil : [] ∈ normalizePatterns refPatterns := by simp [normalizePatterns_of_blank hblank]
    exact h.restricted _ (hmem [] hnil) rfl rfl
  · intro hsome
    refine ⟨?_, ?_⟩
    · intro later hlater identity oidc hk hprovider hrepository refName es' p hp
      have hne : identity.kind ≠ .bootstrapAdmin := by
        rw [hk]
        exact fun hn => nomatch hn
      obtain ⟨patterns, hpne, -, hall⟩ := Machine.exec_of_wp_any es'
        (wp_authorizeProjectRef hne refName) p hp
      obtain ⟨pattern, hpattern⟩ := List.exists_mem_of_ne_nil _ hpne
      obtain ⟨hgranted, hallowed⟩ := hall pattern hpattern
      cases hgranted with
      | accessToken hk' => exact nomatch hk.symm.trans hk'
      | oidc hk' hprovider' hrepository' hbinding hslug =>
        cases hk.symm.trans hk'
        cases hprovider.symm.trans hprovider'
        cases hrepository.symm.trans hrepository'
        obtain ⟨q, hq, hshown⟩ := (hbound.kept hlater).shown hbinding hslug
        exact matchedBy_of_allowed hsome hq (hshown ▸ hallowed)
    · intro binding hbinding hslug hn
      obtain ⟨q, hq, hshown⟩ := hbound.shown hbinding hslug
      obtain ⟨hne, -⟩ := (mem_normalizePatterns hsome).mp hq
      rw [hn, Restrictions.shown, if_neg hne] at hshown
      cases hshown

theorem restricted_iff_some_pattern [Sha256] {w : World} (hw : Reachable w)
    (project : ProjectSlug) (refPatterns : List Text) (es : Nat → Env) :
    (∀ name expiresAt created,
      (machine.exec (createAccessToken name project refPatterns expiresAt) es w).2 = .ok created →
      (TokenRestricted refPatterns created
        (machine.exec (createAccessToken name project refPatterns expiresAt) es w).1 ↔
          ∃ pattern ∈ refPatterns, trim pattern ≠ [])) ∧
    ∀ provider repository,
      (machine.exec (replaceProjectOidcIdentity project provider repository refPatterns) es w).2 =
        .ok () →
      (BindingRestricted project (trim provider) (trim repository) refPatterns
        (machine.exec (replaceProjectOidcIdentity project provider repository refPatterns) es w).1 ↔
          ∃ pattern ∈ refPatterns, trim pattern ≠ []) :=
  ⟨fun name expiresAt created => tokenRestricted_iff hw name project refPatterns expiresAt es
      created,
    fun provider repository => bindingRestricted_iff w project provider repository refPatterns es⟩

end

section Examples

attribute [local instance] standardWildMatch exampleSha256

def projectWorld : World :=
  (answer (.insertProject ⟨0, exampleProject, "Example".toList, true, .main⟩) exampleCreation
    ⟨{}, fun _ _ => none⟩).1

theorem projectWorld_reachable : Reachable projectWorld :=
  ⟨fun _ _ => none, .single ⟨_, _, rfl⟩⟩

def tokenFor (refPatterns : List Text) : World × Except Error CreatedAccessToken :=
  machine.exec (createAccessToken "ci".toList exampleProject refPatterns none)
    (fun _ => exampleCreation) projectWorld

def bindingFor (refPatterns : List Text) : World × Except Error Unit :=
  machine.exec (replaceProjectOidcIdentity exampleProject "github".toList "example/app".toList
    refPatterns) (fun _ => exampleCreation) projectWorld

def createdFor (refPattern : Option Text) : CreatedAccessToken where
  token := exampleCreated.token
  records := [⟨1, "ci".toList, exampleProject, refPattern, exampleCreation.sqliteNow, none, none⟩]

theorem main_restricted :
    (tokenFor ["main".toList]).2 = .ok (createdFor (some "main".toList)) ∧
      TokenRestricted ["main".toList] (createdFor (some "main".toList))
        (tokenFor ["main".toList]).1 ∧
      (bindingFor ["main".toList]).2 = .ok () ∧
      BindingRestricted exampleProject (trim "github".toList) (trim "example/app".toList)
        ["main".toList] (bindingFor ["main".toList]).1 := by
  have htoken : (tokenFor ["main".toList]).2 = .ok (createdFor (some "main".toList)) := by
    decide +kernel
  have hbinding : (bindingFor ["main".toList]).2 = .ok () := by decide +kernel
  obtain ⟨hcreated, hbound⟩ := restricted_iff_some_pattern projectWorld_reachable exampleProject
    ["main".toList] (fun _ => exampleCreation)
  exact ⟨htoken, (hcreated _ _ _ htoken).mpr (by decide), hbinding,
    (hbound _ _ hbinding).mpr (by decide)⟩

theorem blank_unrestricted :
    (tokenFor [" ".toList]).2 = .ok (createdFor none) ∧
      (∃ p, (machine.exec (authorizeProjectRef (.accessToken 1 "ci".toList) exampleProject
        "main".toList) (fun _ => exampleCreation) (tokenFor [" ".toList]).1).2 = .ok p) ∧
      (bindingFor [" ".toList]).2 = .ok () ∧
      (∃ p, (machine.exec (authorizeProjectRef (actionsIdentity (some "main".toList))
        exampleProject "main".toList) (fun _ => exampleCreation) (bindingFor [" ".toList]).1).2 =
          .ok p) ∧
      ¬ MatchedBy [" ".toList] "main".toList := by
  refine ⟨by decide +kernel, ?_, by decide +kernel, ?_, by unfold MatchedBy; decide⟩
  · exact ⟨⟨.accessToken 1 "ci".toList, .project exampleProject []⟩, by decide +kernel⟩
  · exact ⟨⟨actionsIdentity (some "main".toList), .project exampleProject []⟩, by decide +kernel⟩

end Examples

end Restrictions
