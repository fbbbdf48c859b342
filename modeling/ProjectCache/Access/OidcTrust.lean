import ProjectCache.Access.Oidc

namespace Oidc

open Textual Auth Db Programs

section

variable [Jose]

structure Discovered (served : List (Text × Text)) (provider : OidcProviderConfig)
    (discovery : DiscoveryDocument) : Prop where
  document : ∃ body, (discoveryUrl provider, body) ∈ served ∧
    Jose.parseDiscovery body = some discovery
  issuer : discovery.issuer = provider.issuer

structure Vetted (served : List (Text × Text)) (provider : OidcProviderConfig)
    (state : CachedProviderState) : Prop where
  discovered : Discovered served provider state.discovery
  keys : ∃ body, (state.discovery.jwksUri, body) ∈ served ∧ Jose.parseJwks body = some state.jwks

theorem Discovered.mono {served later : List (Text × Text)} {provider : OidcProviderConfig}
    {discovery : DiscoveryDocument} (h : Discovered served provider discovery)
    (hl : served ⊆ later) : Discovered later provider discovery := by
  obtain ⟨body, hb, hp⟩ := h.document
  exact ⟨⟨body, hl hb, hp⟩, h.issuer⟩

theorem Vetted.mono {served later : List (Text × Text)} {provider : OidcProviderConfig}
    {state : CachedProviderState} (h : Vetted served provider state) (hl : served ⊆ later) :
    Vetted later provider state := by
  obtain ⟨body, hb, hp⟩ := h.keys
  exact ⟨h.discovered.mono hl, body, hl hb, hp⟩

variable {providers : List (Text × OidcProviderConfig)} {name url : Text}
  {provider : OidcProviderConfig} {w v : World}

def Sound (providers : List (Text × OidcProviderConfig)) (w : World) : Prop :=
  ∀ name state, w.cache name = some state →
    ∃ provider, (name, provider) ∈ providers ∧ Vetted w.served provider state

theorem sound_empty (providers : List (Text × OidcProviderConfig)) : Sound providers .empty := by
  rintro name state ⟨⟩

structure Later (providers : List (Text × OidcProviderConfig)) (w v : World) : Prop where
  served : w.served ⊆ v.served
  sound : Sound providers w → Sound providers v

theorem Later.refl (providers : List (Text × OidcProviderConfig)) (w : World) :
    Later providers w w := ⟨fun _ h => h, id⟩

theorem Later.trans {u : World} (h : Later providers w v) (k : Later providers v u) :
    Later providers w u := ⟨fun _ hx => k.served (h.served hx), fun hw => k.sound (h.sound hw)⟩

inductive Announced (providers : List (Text × OidcProviderConfig)) (served : List (Text × Text)) :
    Text → Prop
  | discovery (name : Text) (provider : OidcProviderConfig) (hp : (name, provider) ∈ providers) :
    Announced providers served (discoveryUrl provider)
  | keys (name : Text) (provider : OidcProviderConfig) (discovery : DiscoveryDocument)
    (hp : (name, provider) ∈ providers) (hd : Discovered served provider discovery) :
    Announced providers served discovery.jwksUri

def Allowed (targets : List (Text × OidcProviderConfig)) (served : List (Text × Text)) :
    Call → Prop
  | .fetchText url => Announced targets served url
  | .writeCache name state => ∃ provider, (name, provider) ∈ targets ∧ Vetted served provider state
  | _ => True

variable {targets : List (Text × OidcProviderConfig)}

theorem answer_later {c : Call} (ht : targets ⊆ providers) (e : Env)
    (h : Allowed targets w.served c) : Later providers w (answer c e w).1 := by
  cases c with
  | readCache name => exact .refl providers w
  | now => exact .refl providers w
  | fetchText url =>
    simp only [answer]
    split
    · refine ⟨List.subset_append_left _ _, fun hs name state hstate => ?_⟩
      obtain ⟨provider, hp, hv⟩ := hs name state hstate
      exact ⟨provider, hp, hv.mono (List.subset_append_left _ _)⟩
    · exact .refl providers w
  | writeCache written state =>
    refine ⟨fun _ hx => hx, fun hs name known hknown => ?_⟩
    simp only [answer] at hknown
    split at hknown
    · rename_i hname
      cases hknown
      obtain ⟨provider, hp, hv⟩ := h
      exact ⟨provider, hname ▸ ht hp, hv⟩
    · exact hs name known hknown

def surrounding (providers : List (Text × OidcProviderConfig)) : machine.Surrounding where
  later := Later providers
  admits := fun _ _ => True

def Outlines {A : Type} (targets providers : List (Text × OidcProviderConfig))
    (post : Except AuthError A → World → Prop) (p : Action A) (w : World) : Prop :=
  Outline (surrounding providers) (fun c _ v _ => Allowed targets v.served c) post p w

section

variable {A B : Type} {post : Except AuthError A → World → Prop}

theorem Outlines.bind {p : Action A} {f : A → Action B} {post : Except AuthError B → World → Prop}
    (h : Outlines targets providers
      (onOk (fun a v => Outlines targets providers post (f a) v) post) p w) :
    Outlines targets providers post (p.bind f) w := Outline.bind h

theorem Outlines.mono {p : Action A} {post' : Except AuthError A → World → Prop}
    (h : Outlines targets providers post p w) (hp : ∀ r v, post r v → post' r v) :
    Outlines targets providers post' p w := Outline.mono h (fun _ _ _ _ _ h => h) hp

theorem outlines_orFail {value : Option A} {error : AuthError}
    (hn : value = none → post (.error error) w) (hs : ∀ a, value = some a → post (.ok a) w) :
    Outlines targets providers post (orFail value error) w := by
  cases value with
  | none => exact hn rfl
  | some a => exact hs a rfl

theorem outlines_fetchText {post : Except AuthError Text → World → Prop}
    (ht : targets ⊆ providers) (ha : Announced targets w.served url) (hs : Sound providers w)
    (hok : ∀ body v, Later providers w v → Sound providers v → (url, body) ∈ v.served →
      post (.ok body) v)
    (herror : ∀ v, Later providers w v → Sound providers v → post (.error .unavailable) v) :
    Outlines targets providers post (perform (.fetchText url)) w := by
  intro v hv e _
  have ha' : Announced targets v.served url := by
    cases ha with
    | discovery name provider hp => exact .discovery name provider hp
    | keys name provider discovery hp hd =>
      exact .keys name provider discovery hp (hd.mono hv.served)
  have hl := answer_later (c := .fetchText url) ht e ha'
  refine ⟨ha', ?_⟩
  cases hr : e.response url with
  | none =>
    simp only [answer, hr] at hl ⊢
    exact herror v (hv.trans hl) (hv.sound hs)
  | some body =>
    simp only [answer, hr] at hl ⊢
    exact hok body _ (hv.trans hl) ((hv.trans hl).sound hs) (by simp)

end

theorem outlines_fetchDiscovery (ht : targets ⊆ providers) (hp : (name, provider) ∈ targets)
    (hs : Sound providers w) :
    Outlines targets providers (fun r v => Later providers w v ∧ Sound providers v ∧
      ∀ discovery, r = .ok discovery → Discovered v.served provider discovery)
      (fetchDiscovery provider) w := by
  refine .bind (outlines_fetchText ht (.discovery name provider hp) hs (fun body v hl hv hb => ?_)
    (fun v hl hv => ⟨hl, hv, fun _ hr => by cases hr⟩))
  refine .bind (outlines_orFail (fun _ => ⟨hl, hv, fun _ hr => by cases hr⟩)
    (fun discovery hd => ?_))
  rw [onOk_ok]
  split
  · exact ⟨hl, hv, fun _ hr => by cases hr⟩
  · rename_i hissuer
    refine ⟨hl, hv, fun found hr => ?_⟩
    cases hr
    exact ⟨⟨body, hb, hd⟩, not_not.mp hissuer⟩

theorem outlines_fetchJwks {jwksUri : Text} (ht : targets ⊆ providers)
    (ha : Announced targets w.served jwksUri)
    (hs : Sound providers w) :
    Outlines targets providers (fun r v => Later providers w v ∧ Sound providers v ∧
      ∀ jwks, r = .ok jwks → ∃ body, (jwksUri, body) ∈ v.served ∧ Jose.parseJwks body = some jwks)
      (fetchJwks jwksUri) w := by
  refine .bind (outlines_fetchText ht ha hs (fun body v hl hv hb => ?_)
    (fun v hl hv => ⟨hl, hv, fun _ hr => by cases hr⟩))
  refine outlines_orFail (fun _ => ⟨hl, hv, fun _ hr => by cases hr⟩) (fun jwks hj => ?_)
  refine ⟨hl, hv, fun found hr => ?_⟩
  cases hr
  exact ⟨body, hb, hj⟩

def VettedResult (providers : List (Text × OidcProviderConfig)) (provider : OidcProviderConfig)
    (w : World) (r : Except AuthError CachedProviderState) (v : World) : Prop :=
  Later providers w v ∧ Sound providers v ∧ ∀ state, r = .ok state → Vetted v.served provider state

theorem outlines_refreshProviderState (ht : targets ⊆ providers)
    (hp : (name, provider) ∈ targets) (hs : Sound providers w) :
    Outlines targets providers (VettedResult providers provider w)
      (refreshProviderState name provider)
      w := by
  refine .bind ((outlines_fetchDiscovery ht hp hs).mono ?_)
  rintro (x | discovery) v ⟨hl, hv, hd⟩
  · exact ⟨hl, hv, fun _ hr => by cases hr⟩
  have hdv := hd discovery rfl
  refine .bind ((outlines_fetchJwks ht (.keys name provider discovery hp hdv) hv).mono ?_)
  rintro (x | jwks) u ⟨hu, hsu, hj⟩
  · exact ⟨hl.trans hu, hsu, fun _ hr => by cases hr⟩
  have hvetted : Vetted u.served provider ⟨discovery, jwks⟩ :=
    ⟨hdv.mono hu.served, hj jwks rfl⟩
  refine .bind (fun t htu e _ => ?_)
  have hallowed : Allowed targets t.served (.writeCache name ⟨discovery, jwks⟩) :=
    ⟨provider, hp, hvetted.mono htu.served⟩
  have hlast := answer_later (c := .writeCache name ⟨discovery, jwks⟩) ht e hallowed
  refine ⟨hallowed, ((hl.trans hu).trans htu).trans hlast, (htu.trans hlast).sound hsu, ?_⟩
  rintro state ⟨⟩
  exact hvetted.mono (htu.trans hlast).served

theorem outlines_cachedOrFetchProviderState {config : OidcConfig}
    (ht : targets ⊆ config.providers) (hp : (name, provider) ∈ targets)
    (hs : Sound config.providers w) :
    Outlines targets config.providers (VettedResult config.providers provider w)
      (cachedOrFetchProviderState name provider) w := by
  refine .bind (fun v hv e _ => ⟨trivial, ?_⟩)
  have hsv := hv.sound hs
  simp only [answer]
  rw [Outline.done_iff, onOk_ok]
  cases hc : v.cache name with
  | none =>
    refine (outlines_refreshProviderState ht hp hsv).mono ?_
    rintro r u ⟨hu, hsu, hvet⟩
    exact ⟨hv.trans hu, hsu, hvet⟩
  | some state =>
    refine ⟨hv, hsv, ?_⟩
    rintro found ⟨⟩
    obtain ⟨other, hother, hvet⟩ := hsv name state hc
    exact config.provider_unique (ht hp) hother ▸ hvet

theorem outlines_providerStateFor {config : OidcConfig} {kid : Text}
    (ht : targets ⊆ config.providers) (hp : (name, provider) ∈ targets)
    (hs : Sound config.providers w) :
    Outlines targets config.providers (VettedResult config.providers provider w)
      (providerStateFor name provider kid) w := by
  refine .bind ((outlines_cachedOrFetchProviderState ht hp hs).mono ?_)
  rintro (x | cached) v ⟨hl, hv, hcached⟩
  · exact ⟨hl, hv, fun _ hr => by cases hr⟩
  rw [onOk_ok]
  split
  · refine (outlines_refreshProviderState ht hp hv).mono ?_
    rintro r u ⟨hlu, hsu, hvet⟩
    exact ⟨hl.trans hlu, hsu, hvet⟩
  · refine ⟨hl, hv, ?_⟩
    rintro state ⟨⟩
    exact hcached _ rfl

def claimedProvider (config : OidcConfig) (bearerToken : Option Text) :
    Option (Text × OidcProviderConfig) := do
  let token ← bearerToken
  let claims ← decodeClaimsUnverified token
  let issuer ← getStringClaim claims "iss".toList
  config.providerForIssuer issuer

omit [Jose] in
theorem mem_of_providerForIssuer {config : OidcConfig} {issuer : Text}
    (h : config.providerForIssuer issuer = some (name, provider)) :
    (name, provider) ∈ config.providers := List.mem_of_find?_eq_some h

theorem claimedProvider_subset (config : OidcConfig) (bearerToken : Option Text) :
    (claimedProvider config bearerToken).toList ⊆ config.providers := by
  intro p hp
  have hp := Option.mem_toList.mp hp
  simp only [claimedProvider, Option.bind_eq_bind, Option.bind_eq_some_iff] at hp
  obtain ⟨token, -, claims, -, issuer, -, hfound⟩ := hp
  exact mem_of_providerForIssuer hfound

variable [JsonText] [WildMatch]

structure Verified (served : List (Text × Text)) (name : Text) (provider : OidcProviderConfig)
    (token : Text) (identity : AuthenticatedIdentity) (state : CachedProviderState)
    (claims : Claims) :
    Prop where
  vetted : Vetted served provider state
  decoded : ∃ kid jwk key now, Jose.decodeHeader token = some (some kid) ∧
    selectJwk state.jwks kid = some jwk ∧ Jose.fromJwk jwk = some key ∧
    Jose.decode token key (keyValidation provider state.discovery) now = some (.object claims)
  identity : identityOf name provider provider.issuer claims = some identity

inductive Trusted (writeToken : Option Text) (providers : List (Text × OidcProviderConfig))
    (served : List (Text × Text)) : Option Text → AuthenticatedIdentity → Prop
  | admin (token : Text) (h : writeToken = some token) :
    Trusted writeToken providers served (some token) .bootstrapAdmin
  | oidc (token name : Text) (provider : OidcProviderConfig) (identity : AuthenticatedIdentity)
    (state : CachedProviderState) (claims : Claims) (config : OidcConfig)
    (hc : config.providers = providers)
    (hclaimed : claimedProvider config (some token) = some (name, provider))
    (hp : (name, provider) ∈ providers)
    (ho : ∀ other ∈ providers, other.2.issuer = provider.issuer → other = (name, provider))
    (hv : Verified served name provider token identity state claims) :
    Trusted writeToken providers served (some token) identity

variable {writeToken bearer : Option Text} {identity : AuthenticatedIdentity}

theorem Trusted.mono {served later : List (Text × Text)}
    (h : Trusted writeToken providers served bearer identity) (hl : served ⊆ later) :
    Trusted writeToken providers later bearer identity := by
  cases h with
  | admin token h => exact .admin token h
  | oidc token name provider identity state claims config hc hclaimed hp ho hv =>
    exact .oidc token name provider identity state claims config hc hclaimed hp ho
      ⟨hv.vetted.mono hl, hv.decoded, hv.identity⟩

def TrustedResult (writeToken : Option Text) (providers : List (Text × OidcProviderConfig))
    (bearer : Option Text) (w : World) (r : Except AuthError AuthenticatedIdentity) (v : World) :
    Prop :=
  Later providers w v ∧ Sound providers v ∧
    ∀ identity, r = .ok identity → Trusted writeToken providers v.served bearer identity

theorem TrustedResult.error {x : AuthError} (hl : Later providers w v) (hv : Sound providers v) :
    TrustedResult writeToken providers bearer w (.error x) v := ⟨hl, hv, fun _ hr => by cases hr⟩

theorem TrustedResult.after {u : World} {r : Except AuthError AuthenticatedIdentity}
    (hl : Later providers w v) (h : TrustedResult writeToken providers bearer v r u) :
    TrustedResult writeToken providers bearer w r u := ⟨hl.trans h.1, h.2.1, h.2.2⟩

theorem outlines_static (hs : Sound providers w) :
    Outlines targets providers (TrustedResult writeToken providers bearer w)
      (StaticTokenAuthorizer.authorizeBearer writeToken bearer) w := by
  have hl := Later.refl providers w
  refine .bind (outlines_orFail (fun _ => .error hl hs) (fun configured hc => ?_))
  refine .bind (outlines_orFail (fun _ => .error hl hs) (fun provided hb => ?_))
  rw [onOk_ok]
  split
  · rename_i heq
    refine ⟨hl, hs, ?_⟩
    rintro identity ⟨⟩
    rw [hb, heq]
    exact .admin configured hc
  · exact .error hl hs

theorem outlines_oidc {config : OidcConfig}
    (ho : ∀ a ∈ config.providers, ∀ b ∈ config.providers, b.2.issuer = a.2.issuer → b = a)
    (hs : Sound config.providers w) :
    Outlines (claimedProvider config bearer).toList config.providers
      (TrustedResult writeToken config.providers bearer w)
      (OidcAuthorizer.authorizeBearer config bearer) w := by
  have hl := Later.refl config.providers w
  refine .bind (outlines_orFail (fun _ => .error hl hs) (fun token hb => ?_))
  refine .bind (outlines_orFail (fun _ => .error hl hs) (fun unverified hunverified => ?_))
  refine .bind (outlines_orFail (fun _ => .error hl hs) (fun issuer hissuer => ?_))
  refine .bind (outlines_orFail (fun _ => .error hl hs) (fun found hfound => ?_))
  obtain ⟨name, provider⟩ := found
  have hp := mem_of_providerForIssuer hfound
  have hclaimed : claimedProvider config bearer = some (name, provider) := by
    simp only [claimedProvider, hb, Option.bind_eq_bind, Option.bind_some, hunverified, hissuer,
      hfound]
  rw [hclaimed, Option.toList_some]
  refine .bind (outlines_orFail (fun _ => .error hl hs) (fun header hheader => ?_))
  refine .bind (outlines_orFail (fun _ => .error hl hs) (fun kid hkid => ?_))
  refine .bind
    ((outlines_providerStateFor (by simpa using hp) (List.mem_singleton_self _) hs).mono ?_)
  rintro (x | state) u ⟨hlu, hsu, hvet⟩
  · exact .error hlu hsu
  refine .bind (outlines_orFail (fun _ => .error hlu hsu) (fun jwk hjwk => ?_))
  refine .bind (outlines_orFail (fun _ => .error hlu hsu) (fun key hkey => ?_))
  refine .bind (fun t ht e _ => ⟨trivial, ?_⟩)
  have hlt := hlu.trans ht
  have hst := ht.sound hsu
  refine .bind (outlines_orFail (fun _ => .error hlt hst) (fun verified hverified => ?_))
  refine .bind (outlines_orFail (fun _ => .error hlt hst) (fun claims hclaims => ?_))
  refine outlines_orFail (fun _ => .error hlt hst) (fun identity hidentity => ?_)
  refine ⟨hlt, hst, ?_⟩
  rintro _ ⟨⟩
  have hvetted := (hvet state rfl).mono ht.served
  have hobject : verified = .object claims := by
    cases verified <;> cases hclaims
    rfl
  subst hobject
  rw [hvetted.discovered.issuer] at hidentity
  subst hb
  exact .oidc token name provider identity state claims config rfl hclaimed hp (ho _ hp)
    ⟨hvetted, ⟨kid, jwk, key, e.now, by rw [hheader, hkid], hjwk, hkey, hverified⟩, hidentity⟩

omit [Jose] [JsonText] [WildMatch] in
theorem outlines_chain [Jose] [JsonText] [WildMatch] {seen : Seen}
    {authorizers : List (Option Text → Action AuthenticatedIdentity)}
    (h : ∀ authorizer ∈ authorizers, ∀ v, Sound providers v →
      Outlines targets providers (TrustedResult writeToken providers bearer v)
        (authorizer bearer) v)
    (hs : Sound providers w) :
    Outlines targets providers (TrustedResult writeToken providers bearer w)
      (ChainAuthorizer.authorizeBearer bearer seen authorizers) w := by
  induction authorizers generalizing seen w with
  | nil => exact .error (.refl providers w) hs
  | cons authorizer rest ih =>
    unfold ChainAuthorizer.authorizeBearer
    refine .bind (Outline.attempt ((h authorizer (by simp) w hs).mono ?_))
    rintro (x | identity) v hr
    · refine (ih (fun a ha => h a (by simp [ha])) hr.2.1).mono (fun r u hu => ?_)
      exact hu.after hr.1
    · exact ⟨hr.1, hr.2.1, fun found hf => by cases hf; exact hr.2.2 _ rfl⟩

end

section

variable [Jose]

def Call.Fetches : Call → Prop
  | .fetchText _ => True
  | _ => False

variable {A B : Type} {provider : OidcProviderConfig} {name : Text}

omit [Jose] in
theorem atMost_orFail (value : Option A) (error : AuthError) (count : Nat) :
    (orFail value error).AtMost Call.Fetches count := trivial

omit [Jose] in
theorem atMost_quiet {c : Call} (h : ¬ c.Fetches) : (perform c).AtMost Call.Fetches 0 :=
  ⟨0, Nat.le_refl 0, fun hc => absurd hc h, fun _ => trivial⟩

omit [Jose] in
theorem atMost_fetchText (url : Text) : (perform (.fetchText url)).AtMost Call.Fetches 1 :=
  ⟨0, Nat.zero_le 1, fun _ => Nat.zero_lt_one, fun _ => trivial⟩

theorem atMost_refreshProviderState :
    (refreshProviderState name provider).AtMost Call.Fetches 2 := by
  have hdiscovery : (fetchDiscovery provider).AtMost Call.Fetches 1 := by
    refine (atMost_fetchText _).bind (n := 0) (fun body => ?_)
    refine (atMost_orFail _ _ 0).bind (n := 0) (fun discovery => ?_)
    split <;> trivial
  have hjwks (uri : Text) : (fetchJwks uri).AtMost Call.Fetches 1 :=
    (atMost_fetchText _).bind (n := 0) (fun _ => atMost_orFail _ _ 0)
  refine hdiscovery.bind (n := 1) (fun discovery => ?_)
  refine (hjwks _).bind (n := 0) (fun jwks => ?_)
  exact (atMost_quiet (by simp [Call.Fetches])).bind (n := 0) (fun _ => trivial)

theorem atMost_providerStateFor {kid : Text} :
    (providerStateFor name provider kid).AtMost Call.Fetches 4 := by
  have hcached : (cachedOrFetchProviderState name provider).AtMost Call.Fetches 2 := by
    refine (atMost_quiet (by simp [Call.Fetches])).bind (n := 2) (fun known => ?_)
    cases known with
    | none => exact atMost_refreshProviderState
    | some state => trivial
  refine hcached.bind (n := 2) (fun cached => ?_)
  split
  · exact atMost_refreshProviderState
  · trivial

theorem atMost_oidc [JsonText] [WildMatch] (config : OidcConfig) (bearer : Option Text) :
    (OidcAuthorizer.authorizeBearer config bearer).AtMost Call.Fetches 4 := by
  have hskip {C D : Type} (value : Option C) (error : AuthError) {f : C → Action D}
      (hf : ∀ c, (f c).AtMost Call.Fetches 4) :
      ((orFail value error).bind f).AtMost Call.Fetches 4 :=
    (Nat.zero_add 4) ▸ (atMost_orFail value error 0).bind hf
  refine hskip _ _ (fun token => hskip _ _ (fun unverified => hskip _ _ (fun issuer => ?_)))
  refine hskip _ _ (fun found => ?_)
  obtain ⟨name, provider⟩ := found
  refine hskip _ _ (fun header => hskip _ _ (fun kid => ?_))
  refine atMost_providerStateFor.bind (n := 0) (fun state => ?_)
  refine (atMost_orFail _ _ 0).bind (n := 0) (fun jwk => ?_)
  refine (atMost_orFail _ _ 0).bind (n := 0) (fun key => ?_)
  refine (atMost_quiet (by simp [Call.Fetches])).bind (n := 0) (fun now => ?_)
  refine (atMost_orFail _ _ 0).bind (n := 0) (fun verified => ?_)
  exact (atMost_orFail _ _ 0).bind (n := 0) (fun claims => atMost_orFail _ _ 0)

theorem atMost_default [JsonText] [WildMatch] (writeToken bearer : Option Text)
    (oidc : Option OidcConfig) :
    (buildDefaultAuthorizer writeToken oidc bearer).AtMost Call.Fetches 4 := by
  have hstatic :
      (StaticTokenAuthorizer.authorizeBearer writeToken bearer).AtMost Call.Fetches 0 := by
    refine (atMost_orFail _ _ 0).bind (n := 0) (fun configured => ?_)
    refine (atMost_orFail _ _ 0).bind (n := 0) (fun provided => ?_)
    split <;> trivial
  refine hstatic.attempt.bind (n := 4) (fun first => ?_)
  cases first with
  | ok identity => trivial
  | error x =>
    cases oidc with
    | none => trivial
    | some config =>
      refine (atMost_oidc config bearer).attempt.bind (n := 0) (fun second => ?_)
      cases second <;> trivial

end

theorem checkProviders_ok [UrlParser] {allowInsecure : Bool} {issuers : List (Text × Text)}
    {providers : List (Text × OidcProviderConfig)}
    (h : OidcConfig.checkProviders allowInsecure issuers providers = .ok ()) :
    (∀ p ∈ providers, ∀ seen ∈ issuers, seen.1 ≠ p.2.issuer) ∧
      (providers.map (fun p => p.2.issuer)).Nodup := by
  induction providers generalizing issuers with
  | nil => simp
  | cons p rest ih =>
    obtain ⟨name, provider⟩ := p
    rw [OidcConfig.checkProviders] at h
    cases hc : OidcConfig.checkProvider allowInsecure name provider with
    | error x =>
      rw [hc] at h
      cases h
    | ok u =>
      rw [hc] at h
      cases hf : issuers.find? (fun seen => seen.1 = provider.issuer) with
      | some seen =>
        obtain ⟨issuer, existing⟩ := seen
        simp only [bind, Except.bind, hf] at h
        cases h
      | none =>
        simp only [bind, Except.bind, hf] at h
        obtain ⟨hfresh, hnodup⟩ := ih h
        have hnew := List.find?_eq_none.mp hf
        refine ⟨fun q hq seen hs => ?_, ?_⟩
        · rcases List.mem_cons.mp hq with rfl | hq
          · simpa using hnew seen hs
          · exact hfresh q hq seen (List.mem_cons_of_mem _ hs)
        · rw [List.map_cons, List.nodup_cons]
          refine ⟨fun hm => ?_, hnodup⟩
          obtain ⟨q, hq, heq⟩ := List.mem_map.mp hm
          exact hfresh q hq _ (List.mem_cons_self ..) heq.symm

theorem issuer_unique [UrlParser] {config : OidcConfig} (h : config.validate = .ok ()) :
    ∀ a ∈ config.providers, ∀ b ∈ config.providers, b.2.issuer = a.2.issuer → b = a := by
  unfold OidcConfig.validate at h
  split at h
  · cases h
  · exact fun a ha b hb heq => List.inj_on_of_nodup_map (checkProviders_ok h).2 hb ha heq

structure AuthRun where
  writeToken : Option Text
  oidc : Option OidcConfig
  schedule : Pool.Schedule machine (Option Text)

namespace AuthRun

variable [Jose] [JsonText] [WildMatch] (r : AuthRun)

omit [Jose] [JsonText] [WildMatch] in
def providers : List (Text × OidcProviderConfig) := (r.oidc.map OidcConfig.providers).getD []

omit [JsonText] [WildMatch] in
def targets (bearer : Option Text) : List (Text × OidcProviderConfig) :=
  (r.oidc.bind (fun config => claimedProvider config bearer)).toList

def pool (n : Nat) : Pool machine (Option Text) AuthenticatedIdentity :=
  Pool.run (buildDefaultAuthorizer r.writeToken r.oidc) ⟨World.empty, []⟩ r.schedule n

def served (n : Nat) : List (Text × Text) := (r.pool n).state.served

variable {r}

omit [JsonText] [WildMatch] in
theorem targets_subset (bearer : Option Text) : r.targets bearer ⊆ r.providers := by
  unfold targets providers
  cases r.oidc with
  | none => exact List.nil_subset _
  | some config => exact claimedProvider_subset config bearer

theorem relies [UrlParser] (hv : ∀ config ∈ r.oidc, config.validate = .ok ()) :
    Pool.Relies (buildDefaultAuthorizer r.writeToken r.oidc) (surrounding r.providers)
      (fun bearer c _ v => Allowed (r.targets bearer) v.served c)
      (fun bearer x v => ∀ identity, x = .ok identity →
        Trusted r.writeToken r.providers v.served bearer identity) (Sound r.providers) where
  refl := Later.refl r.providers
  trans := Later.trans
  kept := fun hs hl => hl.sound hs
  stable := fun h hl identity hx => (h identity hx).mono hl.served
  guarantee := fun hc _ => answer_later (targets_subset _) _ hc
  outline := fun bearer w hs => by
    refine (outlines_chain (fun authorizer ha v hsv => ?_) hs).mono (fun x v hx => hx.2.2)
    rcases List.mem_cons.mp ha with rfl | ha
    · exact outlines_static hsv
    · obtain ⟨config, hc, rfl⟩ := List.mem_map.mp ha
      have hconfig : r.oidc = some config := Option.mem_toList.mp hc
      have hproviders : r.providers = config.providers := by simp [providers, hconfig]
      have htargets : r.targets bearer = (claimedProvider config bearer).toList := by
        simp [targets, hconfig]
      rw [hproviders] at hsv ⊢
      rw [htargets]
      exact outlines_oidc (issuer_unique (hv config hconfig)) hsv

def granted (task : Task Interface (Option Text) AuthenticatedIdentity) :
    Option (Option Text × AuthenticatedIdentity) :=
  match task.rest with
  | .done (.ok identity) => some (task.request, identity)
  | _ => none

theorem requests_confined [UrlParser] (r : AuthRun)
    (hv : ∀ config ∈ r.oidc, config.validate = .ok ()) :
    (∀ n i bearer url resume, (r.pool n).AtCall i bearer (.fetchText url) resume →
      Announced (r.targets bearer) (r.served n) url) ∧
    ∀ i n, (Pool.stepsOf (buildDefaultAuthorizer r.writeToken r.oidc) ⟨World.empty, []⟩ r.schedule
      Call.Fetches i n).card ≤ 4 := by
  refine ⟨fun n i bearer url resume hc => ?_, fun i n => ?_⟩
  · exact (relies hv).called rfl (sound_empty r.providers) (fun _ => trivial) hc
  · exact Pool.card_stepsOf_bounded rfl (fun bearer => atMost_default _ _ _) i n

end AuthRun

section Examples

open AuthRun

attribute [local instance] standardWildMatch

@[reducible] def plainJson : JsonText where
  toText := fun value => value.asStr.getD []

@[reducible] def httpsParser : UrlParser where
  parse := fun url => (stripPrefix "https://".toList url).elim (.error [])
    (fun host => .ok ⟨"https".toList, some host⟩)

def header : Text := "eyJhbGciOiJSUzI1NiIsImtpZCI6ImsxIn0".toList

def payload : Text :=
  ("eyJpc3MiOiJodHRwczovL2NpLmV4YW1wbGUiLCJhdWQiOiJodHRwczovL2RlcG90LmV4YW1wbGUi" ++
    "LCJzdWIiOiJyZXBvOmV4YW1wbGUvYXBwIiwicmVwb3NpdG9yeSI6ImV4YW1wbGUvYXBwIiwicmVmIjoi" ++
    "bWFpbiIsImV4cCI6MTkwMDAwMDAwMH0").toList

def signature : Text :=
  ("KszsmaMxBRIoZhjSTS1tqALBCNe9Fhuk-5InLMFl5rXEVaNuOqo4uEtZOhs3JN18NyOR2pA1nshlisEm" ++
    "EUec3VQZFI1r6Ona1ecc8w2orLNoxB32TQ4yeKpcgyR-tLcUheyH9oI46E6r-r8buoOTTaliDv-J6ES8" ++
    "CuNd8d-qnQLrc1kC8Q9TPMLQvknyYbthrypDp6moPYBjatlK6KCRFiq8ofptXJGkXDsI6LtPkcTaHUD3" ++
    "aXCKbfM7Bvzaik3oSfWNzxMDg38RdeZEcycMomu4fcUJCpEUTKm7WOJ9WBp-cWWKIsl4MuoOkr7V_AM_" ++
    "2qjErrQq-SO7okPZofmE4Q").toList

def exampleToken : Text := header ++ '.' :: payload ++ '.' :: signature

def exampleIssuer : Text := "https://ci.example".toList

def exampleClaims : Claims :=
  [("aud".toList, .string "https://depot.example".toList),
   ("exp".toList, .number "1900000000".toList),
    ("iss".toList, .string exampleIssuer), ("ref".toList, .string "main".toList),
    ("repository".toList, .string "example/app".toList),
    ("sub".toList, .string "repo:example/app".toList)]

def payloadJson : Text :=
  ("\x7b\"iss\":\"https://ci.example\",\"aud\":\"https://depot.example\"," ++
    "\"sub\":\"repo:example/app\",\"repository\":\"example/app\",\"ref\":\"main\"," ++
    "\"exp\":1900000000\x7d").toList

def ascii (text : Text) : List UInt8 := text.map (fun c => UInt8.ofNat c.toNat)

def discoveryText : Text :=
  "\x7b\"issuer\":\"https://ci.example\",\"jwks_uri\":\"https://ci.example/keys\"\x7d".toList

def modulus : Text :=
  ("rkXICVi9gvHXMp7wgEux8nNlB7Hw87ZLy2pDf9nCYmeAUzYqkG_j8N751w7hEJueDLCmeSwbNB-VnvKm" ++
    "QF_-kkByZ3RoJUGiGL7WIxbc5Pf3YVHLfbgQ_fMFrtdpWi3ad7bs5tKs3_KsJC2TJ6vmnE1kJRTk9Ibu" ++
    "vrflzgO6_lMkctZjGr7IB5K9b_K1pOkKb4AQEH5tOGJDi6KUW6mSd59wIT1U2sTMN9jdnEhMravSKiym" ++
    "1j2L2mb-wKhoMwtOUYfXMoU9GmUud_8WzoxE8nIA2ODfUn2voarGia81t264da0ZQvGM1bWbR9p9JdSx" ++
    "RQXG_ksNdqKXNeD-awIxFw").toList

def rsaMembers (n : Text) : Text :=
  "\"kty\":\"RSA\",\"alg\":\"RS256\",\"e\":\"AQAB\",\"n\":\"".toList ++ n ++ "\"".toList

def keysText : Text :=
  "\x7b\"keys\":[\x7b\"kid\":\"k1\",".toList ++ rsaMembers modulus ++ "\x7d]\x7d".toList

@[reducible] def exampleJose : Jose where
  DecodingKey := Text × Text
  urlSafeNoPad := fun text => if text = payload then some (ascii payloadJson) else none
  urlSafe := fun _ => none
  parseValue := fun bytes =>
    if bytes = ascii payloadJson then some (.object exampleClaims) else none
  parseDiscovery := fun body =>
    if body = discoveryText then some ⟨exampleIssuer, "https://ci.example/keys".toList⟩ else none
  parseJwks := fun body =>
    if body = keysText then some [⟨some "k1".toList, rsaMembers modulus⟩] else none
  decodeHeader := fun token => if token = exampleToken then some (some "k1".toList) else none
  fromJwk := fun jwk =>
    if jwk.members = rsaMembers modulus then some (modulus, "AQAB".toList) else none
  decode := fun token key validation now =>
    if token = exampleToken ∧ key = (modulus, "AQAB".toList) ∧
        validation.issuer = [exampleIssuer] ∧
        validation.audience = ["https://depot.example".toList] ∧ now ≤ 1900000060 then
      some (.object exampleClaims)
    else none

attribute [local instance] plainJson httpsParser exampleJose

def exampleProvider : OidcProviderConfig where
  issuer := exampleIssuer
  audience := "https://depot.example".toList
  repositoryClaim := none
  refClaim := none
  boundClaims := [("repository".toList, ["example/*".toList])]
  boundSubject := []

def exampleConfig : OidcConfig where
  providers := [("ci".toList, exampleProvider)]
  allowInsecure := false
  ordered := List.pairwise_singleton _ _

def exampleResponse (url : Text) : Option Text :=
  if url = "https://ci.example/.well-known/openid-configuration".toList then some discoveryText
  else if url = "https://ci.example/keys".toList then some keysText
  else none

def presented : AuthRun where
  writeToken := some "secret".toList
  oidc := some exampleConfig
  schedule :=
    { choice := fun n => if n = 0 then .submit (some exampleToken) else .advance 0
      env := fun n => ⟨exampleResponse, 1800000000 + n⟩ }

theorem exampleConfig_valid : exampleConfig.validate = .ok () := by
  have h : exampleConfig.validate.toOption = some () := by decide +kernel
  cases hc : exampleConfig.validate with
  | error x =>
    rw [hc] at h
    cases h
  | ok u => rfl

theorem presented_confined :
    (∀ n i bearer url resume, (presented.pool n).AtCall i bearer (.fetchText url) resume →
      Announced (presented.targets bearer) (presented.served n) url) ∧
    ∀ i n, (Pool.stepsOf (buildDefaultAuthorizer presented.writeToken presented.oidc)
      ⟨World.empty, []⟩ presented.schedule Call.Fetches i n).card ≤ 4 :=
  requests_confined presented (fun config hc => by cases hc; exact exampleConfig_valid)

end Examples

end Oidc
