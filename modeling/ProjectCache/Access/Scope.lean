import ProjectCache.Access.Confinement

namespace Access.AuthorizedPrincipal

open Textual Project Db Auth

variable (p : AuthorizedPrincipal)

def requireAdmin : Except AuthorizationServiceError Unit :=
  match p.scope with
  | .admin => .ok ()
  | .project _ _ => .error .forbidden

def requireProject (project : ProjectSlug) : Except AuthorizationServiceError Unit :=
  match p.scope with
  | .admin => .ok ()
  | .project principalProject _ =>
    if principalProject = project then .ok () else .error .forbidden

def requireProjectRef [WildMatch] (project : ProjectSlug) (refName : Text) :
    Except AuthorizationServiceError Unit :=
  match p.scope with
  | .admin => .ok ()
  | .project principalProject refPatterns =>
    if principalProject = project then
      if refPatterns = [] ∨ refPatterns.any (fun pattern => WildMatch.isMatch pattern refName) then
        .ok ()
      else .error .forbidden
    else .error .forbidden

end Access.AuthorizedPrincipal

namespace Scope

open Textual Nix Project Calendar Tables Store Db Programs Auth Depot SqliteDatabase Access
open Confinement

def collapse (patterns : List (Option Text)) : List Text :=
  if patterns.any Option.isNone then [] else sortedRefPatterns (patterns.filterMap id)

theorem refPatternsFromOidcBindings_eq (bindings : List ProjectOidcIdentityRecord) :
    refPatternsFromOidcBindings bindings =
      collapse (bindings.map ProjectOidcIdentityRecord.refPattern) := by
  rw [refPatternsFromOidcBindings, collapse, List.any_map, List.filterMap_map]
  rfl

theorem refPatternsFromAccessTokenRecords_eq (records : List AccessTokenRecord) :
    refPatternsFromAccessTokenRecords records =
      collapse (records.map AccessTokenRecord.refPattern) := by
  rw [refPatternsFromAccessTokenRecords, collapse, List.any_map, List.filterMap_map]
  rfl

theorem mem_sortedRefPatterns {patterns : List Text} {pattern : Text} :
    pattern ∈ sortedRefPatterns patterns ↔ pattern ∈ patterns := by
  rw [sortedRefPatterns, List.mem_dedup]
  exact (sortTexts_perm patterns).mem_iff

theorem mem_collapse {patterns : List (Option Text)} (h : none ∉ patterns) {pattern : Text} :
    pattern ∈ collapse patterns ↔ some pattern ∈ patterns := by
  have hany : ¬ patterns.any Option.isNone = true := by
    rw [List.any_eq_true]
    rintro ⟨pattern, hp, hn⟩
    exact h (Option.isNone_iff_eq_none.mp hn ▸ hp)
  rw [collapse, if_neg hany, mem_sortedRefPatterns, List.mem_filterMap]
  simp

theorem collapse_of_none_mem {patterns : List (Option Text)} (h : none ∈ patterns) :
    collapse patterns = [] := if_pos (by simpa using h)

theorem collapse_ne_nil {patterns : List (Option Text)} (hne : patterns ≠ [])
    (h : none ∉ patterns) : collapse patterns ≠ [] := by
  obtain ⟨pattern, hp⟩ := List.exists_mem_of_ne_nil _ hne
  cases pattern with
  | none => exact absurd hp h
  | some pattern => exact List.ne_nil_of_mem ((mem_collapse h).mpr hp)

section

variable [WildMatch]

theorem collapse_admits {patterns : List (Option Text)} (hne : patterns ≠ []) {refName : Text} :
    (collapse patterns = [] ∨
        (collapse patterns).any (fun pattern => WildMatch.isMatch pattern refName) = true) ↔
      ∃ pattern ∈ patterns, RefAllowed pattern refName := by
  by_cases hnone : none ∈ patterns
  · exact ⟨fun _ => ⟨none, hnone, by simp [RefAllowed]⟩, fun _ => .inl (collapse_of_none_mem hnone)⟩
  · rw [or_iff_right (collapse_ne_nil hne hnone), List.any_eq_true]
    constructor
    · rintro ⟨pattern, hp, hmatch⟩
      exact ⟨some pattern, (mem_collapse hnone).mp hp, by simpa [RefAllowed] using hmatch⟩
    · rintro ⟨pattern, hp, hallowed⟩
      cases pattern with
      | none => exact absurd hp hnone
      | some pattern => exact ⟨pattern, (mem_collapse hnone).mpr hp, hallowed pattern rfl⟩

theorem requireProjectRef_iff {identity : AuthenticatedIdentity} {project other : ProjectSlug}
    {patterns : List (Option Text)} (hne : patterns ≠ []) {refName : Text} :
    (AuthorizedPrincipal.mk identity (.project project (collapse patterns))).requireProjectRef
        other refName = .ok () ↔
      project = other ∧ ∃ pattern ∈ patterns, RefAllowed pattern refName := by
  rw [← collapse_admits hne]
  change (if project = other then if _ then Except.ok () else .error _ else .error _) = .ok () ↔ _
  by_cases hp : project = other
  · rw [if_pos hp]
    split <;> simp_all
  · simp [hp]

end

inductive Granted (admits : Env → Prop) (db : Database) (identity : AuthenticatedIdentity)
    (project : ProjectSlug) : Option Text → Prop
  | accessToken {token : AccessTokenIdentity} (hk : identity.kind = .accessToken token)
    {e : Env} (he : admits e) {record : AccessTokenRecord} (hrecord : record ∈
      db.accessTokenRecords (fun t => t.id = token.tokenId && Database.activeAt e.now t))
    (hslug : record.projectSlug = project) :
    Granted admits db identity project record.refPattern
  | oidc {oidc : OidcIdentity} (hk : identity.kind = .oidc oidc) {provider repository : Text}
    (hprovider : identity.provider = some provider)
    (hrepository : oidc.repository = some repository)
    {binding : ProjectOidcIdentityRecord}
    (hbinding : binding ∈ db.matchingIdentities provider repository)
    (hslug : binding.projectSlug = project) :
    Granted admits db identity project binding.refPattern

def ScopedBy (admits : Env → Prop) (db : Database) (identity : AuthenticatedIdentity)
    (project : ProjectSlug) (condition : Option Text → Prop) (p : AuthorizedPrincipal) : Prop :=
  ∃ patterns, patterns ≠ [] ∧ p = ⟨identity, .project project (collapse patterns)⟩ ∧
    ∀ pattern ∈ patterns, Granted admits db identity project pattern ∧ condition pattern

variable {admits : Env → Prop} {w : World} {identity : AuthenticatedIdentity}
  {project : ProjectSlug} {condition : Option Text → Prop}

theorem wp_principalOfBindings {oidc : OidcIdentity} (hk : identity.kind = .oidc oidc)
    {provider repository : Text} (hprovider : identity.provider = some provider)
    (hrepository : oidc.repository = some repository)
    {bindings : List ProjectOidcIdentityRecord}
    (hb : ∀ binding ∈ bindings, binding ∈ w.db.matchingIdentities provider repository ∧
      binding.projectSlug = project ∧ condition binding.refPattern) :
    machine.wp admits (fun r _ => ∀ p, r = .ok p →
      ScopedBy admits w.db identity project condition p)
      (principalOfBindings identity project bindings) w := by
  unfold principalOfBindings
  split
  · rintro p ⟨⟩
  · rename_i hne
    rintro p ⟨⟩
    refine ⟨bindings.map ProjectOidcIdentityRecord.refPattern, by simpa using hne,
      by rw [refPatternsFromOidcBindings_eq], ?_⟩
    intro pattern hp
    obtain ⟨binding, hmem, rfl⟩ := List.mem_map.mp hp
    obtain ⟨hbinding, hslug, hc⟩ := hb binding hmem
    exact ⟨.oidc hk hprovider hrepository hbinding hslug, hc⟩

theorem wp_principalOfRecords {token : AccessTokenIdentity}
    (hk : identity.kind = .accessToken token) {e : Env} (he : admits e)
    {records : List AccessTokenRecord}
    (hr : ∀ record ∈ records, record ∈ w.db.accessTokenRecords
      (fun t => t.id = token.tokenId && Database.activeAt e.now t) ∧
      record.projectSlug = project ∧ condition record.refPattern) :
    machine.wp admits (fun r _ => ∀ p, r = .ok p →
      ScopedBy admits w.db identity project condition p)
      (principalOfRecords identity project records) w := by
  unfold principalOfRecords
  split
  · rintro p ⟨⟩
  · rename_i hne
    rintro p ⟨⟩
    refine ⟨records.map AccessTokenRecord.refPattern, by simpa using hne,
      by rw [refPatternsFromAccessTokenRecords_eq], ?_⟩
    intro pattern hp
    obtain ⟨record, hmem, rfl⟩ := List.mem_map.mp hp
    obtain ⟨hrecord, hslug, hc⟩ := hr record hmem
    exact ⟨.accessToken hk he hrecord hslug, hc⟩

theorem wp_matchingOidcBindings (identity : AuthenticatedIdentity) (oidc : OidcIdentity) :
    machine.wp admits (fun r v => v = w ∧ ∀ bindings, r = .ok bindings →
      ∃ provider repository, identity.provider = some provider ∧
        oidc.repository = some repository ∧
        bindings = w.db.matchingIdentities provider repository)
      (matchingOidcBindings identity oidc) w := by
  refine Machine.wp_bind.mpr (wp_orFail (fun provider hp => ?_) (by simp))
  refine Machine.wp_bind.mpr (wp_orFail (fun repository hr => ?_) (by simp))
  refine Machine.wp_mapError (wp_select ?_ ?_)
  · refine ⟨rfl, ?_⟩
    rintro bindings ⟨⟩
    exact ⟨provider, repository, hp, hr, rfl⟩
  · intro e _ _ x
    refine ⟨rfl, ?_⟩
    rintro bindings ⟨⟩

theorem wp_activeAccessTokenRecords (tokenId : Uuid) :
    machine.wp admits (fun r v => v = w ∧ ∀ records, r = .ok records →
      ∃ e, admits e ∧ records = w.db.accessTokenRecords
        (fun t => t.id = tokenId && Database.activeAt e.now t))
      (activeAccessTokenRecords tokenId) w := by
  refine Machine.wp_bind.mpr (Machine.wp_mapError (Machine.wp_bind.mpr (wp_now (fun e he => ?_))))
  refine wp_select ?_ ?_
  · change machine.wp admits _ (if _ then refuse _ else .done (.ok _)) w
    split
    · refine ⟨rfl, ?_⟩
      rintro records ⟨⟩
    · refine ⟨rfl, ?_⟩
      rintro records ⟨⟩
      exact ⟨e, he, rfl⟩
  · intro e' _ _ x
    refine ⟨rfl, ?_⟩
    rintro records ⟨⟩

theorem wp_authorizeProject (hk : identity.kind ≠ .bootstrapAdmin) :
    machine.wp admits (fun r _ => ∀ p, r = .ok p →
      ScopedBy admits w.db identity project (fun _ => True) p)
      (authorizeProject identity project) w := by
  unfold authorizeProject
  cases hkind : identity.kind with
  | bootstrapAdmin => exact absurd hkind hk
  | oidc oidc =>
    refine Machine.wp_bind.mpr (Machine.wp_mono (wp_matchingOidcBindings identity oidc) ?_)
    rintro r v ⟨rfl, hr⟩
    cases r with
    | error x => rintro p ⟨⟩
    | ok bindings =>
      obtain ⟨provider, repository, hp, hrep, rfl⟩ := hr bindings rfl
      refine wp_principalOfBindings hkind hp hrep (fun binding hb => ?_)
      obtain ⟨hmem, hslug⟩ := List.mem_filter.mp hb
      exact ⟨hmem, of_decide_eq_true hslug, trivial⟩
  | accessToken token =>
    refine Machine.wp_bind.mpr (Machine.wp_mono (wp_activeAccessTokenRecords token.tokenId) ?_)
    rintro r v ⟨rfl, hr⟩
    cases r with
    | error x => rintro p ⟨⟩
    | ok records =>
      obtain ⟨e, he, rfl⟩ := hr records rfl
      refine wp_principalOfRecords hkind he (fun record hb => ?_)
      obtain ⟨hmem, hslug⟩ := List.mem_filter.mp hb
      exact ⟨hmem, of_decide_eq_true hslug, trivial⟩

section

variable [WildMatch]

theorem wp_authorizeProjectRef (hk : identity.kind ≠ .bootstrapAdmin) (refName : Text) :
    machine.wp admits (fun r _ => ∀ p, r = .ok p →
      ScopedBy admits w.db identity project (fun pattern => RefAllowed pattern refName) p)
      (authorizeProjectRef identity project refName) w := by
  unfold authorizeProjectRef
  cases hkind : identity.kind with
  | bootstrapAdmin => exact absurd hkind hk
  | oidc oidc =>
    change machine.wp admits _ (if _ then refuse _ else _) w
    split
    · rintro p ⟨⟩
    rename_i hname
    refine Machine.wp_bind.mpr (Machine.wp_mono (wp_matchingOidcBindings identity oidc) ?_)
    rintro r v ⟨rfl, hr⟩
    cases r with
    | error x => rintro p ⟨⟩
    | ok bindings =>
      obtain ⟨provider, repository, hp, hrep, rfl⟩ := hr bindings rfl
      refine wp_principalOfBindings hkind hp hrep (fun binding hb => ?_)
      simp only [List.mem_filter, decide_eq_true_eq] at hb
      obtain ⟨⟨hmem, hslug⟩, hmatch⟩ := hb
      refine ⟨hmem, hslug, ?_⟩
      cases ho : oidc.refName with
      | none =>
        rw [ho] at hmatch
        rw [refPatternMatches_none.mp hmatch]
        exact fun _ h => nomatch h
      | some name =>
        rw [ho] at hmatch hname
        have hsame : name = refName := by simpa using hname
        exact hsame ▸ refPatternMatches_some.mp hmatch
  | accessToken token =>
    refine Machine.wp_bind.mpr (Machine.wp_mono (wp_activeAccessTokenRecords token.tokenId) ?_)
    rintro r v ⟨rfl, hr⟩
    cases r with
    | error x => rintro p ⟨⟩
    | ok records =>
      obtain ⟨e, he, rfl⟩ := hr records rfl
      refine wp_principalOfRecords hkind he (fun record hb => ?_)
      simp only [List.mem_filter, decide_eq_true_eq] at hb
      exact ⟨hb.1.1, hb.1.2, refPatternMatches_some.mp hb.2⟩

omit [WildMatch] in
theorem ScopedBy.requireProject {p : AuthorizedPrincipal}
    (h : ScopedBy admits w.db identity project condition p) :
    p.requireProject project = .ok () := by
  obtain ⟨patterns, -, rfl, -⟩ := h
  exact if_pos rfl

omit [WildMatch] in
theorem ScopedBy.requireAdmin {p : AuthorizedPrincipal}
    (h : ScopedBy admits w.db identity project condition p) : p.requireAdmin ≠ .ok () := by
  obtain ⟨patterns, -, rfl, -⟩ := h
  exact fun hok => nomatch hok

theorem ScopedBy.requireProjectRef_of {p : AuthorizedPrincipal} {refName : Text}
    (h : ScopedBy admits w.db identity project (fun pattern => RefAllowed pattern refName) p) :
    p.requireProjectRef project refName = .ok () := by
  obtain ⟨patterns, hne, rfl, hall⟩ := h
  obtain ⟨pattern, hp⟩ := List.exists_mem_of_ne_nil _ hne
  exact (requireProjectRef_iff hne).mpr ⟨rfl, pattern, hp, (hall pattern hp).2⟩

theorem ScopedBy.granted {p : AuthorizedPrincipal} {other : ProjectSlug} {refName : Text}
    (h : ScopedBy admits w.db identity project condition p)
    (hok : p.requireProjectRef other refName = .ok ()) :
    other = project ∧ ∃ pattern, Granted admits w.db identity project pattern ∧
      RefAllowed pattern refName := by
  obtain ⟨patterns, hne, rfl, hall⟩ := h
  obtain ⟨hproject, pattern, hp, hallowed⟩ := (requireProjectRef_iff hne).mp hok
  exact ⟨hproject.symm, pattern, (hall pattern hp).1, hallowed⟩

theorem scope_sound (identity : AuthenticatedIdentity) (project : ProjectSlug) (refName : Text)
    (es : Nat → Env) (w : World) :
    (∀ p, (machine.exec (authorizeProjectRef identity project refName) es w).2 = .ok p →
      p.requireProject project = .ok () ∧ p.requireProjectRef project refName = .ok ()) ∧
    ∀ p, (machine.exec (authorizeProject identity project) es w).2 = .ok p ∨
        (machine.exec (authorizeProjectRef identity project refName) es w).2 = .ok p →
      identity.kind ≠ .bootstrapAdmin →
      p.requireAdmin ≠ .ok () ∧ ∀ other refName', p.requireProjectRef other refName' = .ok () →
        other = project ∧
          ∃ pattern, Granted (fun e => ∃ n, e = es n) w.db identity project pattern ∧
          RefAllowed pattern refName' := by
  constructor
  · intro p hp
    by_cases hk : identity.kind = .bootstrapAdmin
    · rw [authorizeProjectRef, hk] at hp
      cases hp
      exact ⟨rfl, rfl⟩
    · have hscope := Machine.exec_of_wp_drawn es
        (wp_authorizeProjectRef hk refName) p hp
      exact ⟨hscope.requireProject, hscope.requireProjectRef_of⟩
  · rintro p (hp | hp) hk
    · have hscope := Machine.exec_of_wp_drawn es
        (wp_authorizeProject hk) p hp
      exact ⟨hscope.requireAdmin, fun _ _ hok => hscope.granted hok⟩
    · have hscope := Machine.exec_of_wp_drawn es
        (wp_authorizeProjectRef hk refName) p hp
      exact ⟨hscope.requireAdmin, fun _ _ hok => hscope.granted hok⟩

end

section Examples

open Depot.Server

attribute [local instance] standardWildMatch

def mainIdentity : AuthenticatedIdentity := actionsIdentity (some "main".toList)

def mainPrincipal : AuthorizedPrincipal :=
  ⟨mainIdentity, .project exampleSlug ["main".toList]⟩

theorem main_scope_sound :
    (machine.exec (authorizeProjectRef mainIdentity exampleSlug "main".toList) moment
      pendingWorld).2 = .ok mainPrincipal ∧
    mainPrincipal.requireProjectRef exampleSlug "main".toList = .ok () ∧
    mainPrincipal.requireAdmin ≠ .ok () ∧
    ∀ other refName', mainPrincipal.requireProjectRef other refName' = .ok () →
      other = exampleSlug ∧ ∃ pattern,
        Granted (fun e => ∃ n, e = moment n) pendingWorld.db mainIdentity exampleSlug pattern ∧
          RefAllowed pattern refName' := by
  have hok : (machine.exec (authorizeProjectRef mainIdentity exampleSlug "main".toList) moment
      pendingWorld).2 = .ok mainPrincipal := by decide +kernel
  obtain ⟨hadmits, hconfines⟩ :=
    scope_sound mainIdentity exampleSlug "main".toList moment pendingWorld
  exact ⟨hok, (hadmits mainPrincipal hok).2, hconfines mainPrincipal (.inr hok) (by decide)⟩

end Examples

end Scope
