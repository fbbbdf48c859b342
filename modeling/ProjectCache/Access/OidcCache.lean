import ProjectCache.Access.OidcTrust

namespace Oidc

open Textual Auth Db Programs

section

variable [Jose] {name kid : Text} {provider : OidcProviderConfig} {e : Env} {w v : World}

def keyIn (kid : Text) (state : CachedProviderState) : Text × Option Jwk :=
  (state.discovery.issuer, selectJwk state.jwks kid)

def cachedKey (w : World) (name kid : Text) : Option (Text × Jwk) := do
  let state ← w.cache name
  let jwk ← selectJwk state.jwks kid
  return (state.discovery.issuer, jwk)

def cachedJwk (w : World) (name kid : Text) : Option Jwk := do
  let state ← w.cache name
  selectJwk state.jwks kid

theorem cachedKey_of_sound {config : OidcConfig} (hs : Sound config.providers w)
    (hp : (name, provider) ∈ config.providers) :
    cachedKey w name kid = (cachedJwk w name kid).map (fun jwk => (provider.issuer, jwk)) := by
  unfold cachedKey cachedJwk
  cases hstate : w.cache name with
  | none => rfl
  | some state =>
    obtain ⟨cached, hc, hvetted⟩ := hs name state hstate
    obtain rfl := config.provider_unique hc hp
    simp only [Option.bind_eq_bind, Option.bind_some, hvetted.discovered.issuer]
    cases selectJwk state.jwks kid <;> rfl

def freshDiscovery (e : Env) (provider : OidcProviderConfig) : Except AuthError DiscoveryDocument :=
  match (e.response (discoveryUrl provider)).bind Jose.parseDiscovery with
  | none => .error .unavailable
  | some discovery =>
    if discovery.issuer ≠ provider.issuer then .error .invalidToken else .ok discovery

def freshJwks (e : Env) (jwksUri : Text) : Except AuthError (List Jwk) :=
  match (e.response jwksUri).bind Jose.parseJwks with
  | none => .error .unavailable
  | some jwks => .ok jwks

def freshState (e : Env) (provider : OidcProviderConfig) : Except AuthError CachedProviderState :=
  match freshDiscovery e provider with
  | .error x => .error x
  | .ok discovery => (freshJwks e discovery.jwksUri).map (fun jwks => ⟨discovery, jwks⟩)

omit [Jose] in
theorem exec_bind_steady {A B : Type} (p : Action A) (f : A → Action B) (w : World) :
    (machine.exec (p.bind f) (fun _ => e) w).2 =
      match (machine.exec p (fun _ => e) w).2 with
      | .ok a => (machine.exec (f a) (fun _ => e) (machine.exec p (fun _ => e) w).1).2
      | .error x => .error x := by
  obtain ⟨count, h⟩ := machine.exec_bind p f (fun _ => e) w
  rw [h]
  cases (machine.exec p (fun _ => e) w).2 <;> rfl

omit [Jose] in
theorem exec_fetchText (url : Text) (w : World) :
    (machine.exec (perform (.fetchText url)) (fun _ => e) w).2 =
      (e.response url).elim (.error .unavailable) .ok := by
  simp only [perform, Prog.perform, Machine.exec, answer]
  cases e.response url <;> rfl

omit [Jose] in
theorem exec_orFail_bind {A B : Type} (value : Option A) (error : AuthError) (f : A → Action B)
    (w : World) : (machine.exec ((orFail value error).bind f) (fun _ => e) w).2 =
      match value with
      | some a => (machine.exec (f a) (fun _ => e) w).2
      | none => .error error := by
  cases value <;> rfl

theorem exec_fetchDiscovery (w : World) :
    (machine.exec (fetchDiscovery provider) (fun _ => e) w).2 = freshDiscovery e provider := by
  rw [fetchDiscovery, Prog.bind_eq, exec_bind_steady, exec_fetchText]
  unfold freshDiscovery
  cases e.response (discoveryUrl provider) with
  | none => rfl
  | some body =>
    simp only [Option.elim_some, Option.bind_some, Prog.bind_eq, exec_orFail_bind]
    cases Jose.parseDiscovery body with
    | none => rfl
    | some discovery =>
      by_cases hissuer : discovery.issuer = provider.issuer
      · simp [hissuer, Machine.exec]
      · simp [hissuer, Machine.exec, Prog.fail]

theorem exec_fetchJwks (jwksUri : Text) (w : World) :
    (machine.exec (fetchJwks jwksUri) (fun _ => e) w).2 = freshJwks e jwksUri := by
  rw [fetchJwks, Prog.bind_eq, exec_bind_steady, exec_fetchText]
  unfold freshJwks
  cases e.response jwksUri with
  | none => rfl
  | some body =>
    simp only [Option.elim_some, Option.bind_some]
    cases Jose.parseJwks body <;> rfl

theorem exec_refreshProviderState (w : World) :
    (machine.exec (refreshProviderState name provider) (fun _ => e) w).2 =
      freshState e provider := by
  rw [refreshProviderState, Prog.bind_eq, exec_bind_steady, exec_fetchDiscovery]
  unfold freshState
  cases freshDiscovery e provider with
  | error x => rfl
  | ok discovery =>
    simp only [Prog.bind_eq, exec_bind_steady, exec_fetchJwks]
    cases freshJwks e discovery.jwksUri <;> rfl

def keyFound (e : Env) (provider : OidcProviderConfig) (kid : Text) (cached : Option (Text × Jwk)) :
    Except AuthError (Text × Option Jwk) :=
  match cached with
  | some (issuer, jwk) => .ok (issuer, some jwk)
  | none => (freshState e provider).map (keyIn kid)

theorem exec_providerStateFor (w : World) :
    (machine.exec (providerStateFor name provider kid) (fun _ => e) w).2.map (keyIn kid) =
      keyFound e provider kid (cachedKey w name kid) := by
  have hrefresh (cached : CachedProviderState) (hn : selectJwk cached.jwks kid = none) (u : World) :
      (machine.exec (if (selectJwk cached.jwks kid).isNone then refreshProviderState name provider
        else return cached) (fun _ => e) u).2 = freshState e provider := by
    rw [hn]
    exact exec_refreshProviderState u
  have hkept (cached : CachedProviderState) {jwk : Jwk} (hs : selectJwk cached.jwks kid = some jwk)
      (u : World) : (machine.exec (if (selectJwk cached.jwks kid).isNone then
        refreshProviderState name provider else return cached) (fun _ => e) u).2 = .ok cached := by
    rw [hs]
    rfl
  have hcached : (machine.exec (cachedOrFetchProviderState name provider) (fun _ => e) w).2 =
      match w.cache name with
      | some state => .ok state
      | none => freshState e provider := by
    rw [cachedOrFetchProviderState, Prog.bind_eq, exec_bind_steady]
    have hread : (machine.exec (perform (.readCache name)) (fun _ => e) w).2 = .ok (w.cache name) :=
      rfl
    rw [hread]
    cases w.cache name with
    | none => exact exec_refreshProviderState _
    | some state => rfl
  rw [providerStateFor, Prog.bind_eq, exec_bind_steady, hcached]
  unfold cachedKey
  cases w.cache name with
  | none =>
    simp only [Option.bind_eq_bind, Option.bind_none, keyFound]
    cases hf : freshState e provider with
    | error x => rfl
    | ok state =>
      rcases Option.eq_none_or_eq_some (selectJwk state.jwks kid) with hs | ⟨jwk, hs⟩
      · simp only [hrefresh state hs, hf]
      · simp only [hkept state hs]
  | some state =>
    simp only [Option.bind_eq_bind, Option.bind_some]
    rcases Option.eq_none_or_eq_some (selectJwk state.jwks kid) with hs | ⟨jwk, hs⟩
    · rw [hrefresh state hs, hs, Option.bind_none, keyFound]
    · rw [hkept state hs]
      simp [keyFound, Except.map, keyIn, hs]

def outcome [JsonText] [WildMatch] (e : Env) (token name : Text) (provider : OidcProviderConfig)
    (found : Text × Option Jwk) : Except AuthError AuthenticatedIdentity :=
  match found.2.bind Jose.fromJwk with
  | none => .error .invalidToken
  | some key =>
    match (Jose.decode token key ⟨[provider.audience], [found.1], true, true⟩ e.now).bind
        Value.asObject with
    | none => .error .invalidToken
    | some claims => (identityOf name provider found.1 claims).elim (.error .invalidToken) .ok

theorem exec_authorizeBearer [JsonText] [WildMatch] {config : OidcConfig} {token : Text}
    (hp : claimedProvider config (some token) = some (name, provider))
    (hk : Jose.decodeHeader token = some (some kid)) (w : World) :
    (machine.exec (OidcAuthorizer.authorizeBearer config (some token)) (fun _ => e) w).2 =
      (keyFound e provider kid (cachedKey w name kid)).bind (outcome e token name provider) := by
  simp only [claimedProvider, Option.bind_eq_bind, Option.bind_some,
    Option.bind_eq_some_iff] at hp
  obtain ⟨claims, hclaims, issuer, hissuer, hfound⟩ := hp
  simp only [OidcAuthorizer.authorizeBearer, Prog.bind_eq, exec_orFail_bind, hclaims, hissuer,
    hfound, hk]
  rw [exec_bind_steady, ← exec_providerStateFor w]
  cases (machine.exec (providerStateFor name provider kid) (fun _ => e) w).2 with
  | error x => rfl
  | ok state =>
    simp only [exec_orFail_bind, Except.map, Except.bind, keyIn, outcome]
    cases selectJwk state.jwks kid with
    | none => rfl
    | some jwk =>
      simp only [Option.bind_some]
      cases Jose.fromJwk jwk with
      | none => rfl
      | some key =>
        have hnow (u : World) : (machine.exec (perform .now) (fun _ => e) u).2 = .ok e.now := rfl
        simp only
        rw [exec_bind_steady, hnow]
        simp only [exec_orFail_bind, keyValidation]
        cases Jose.decode token key ⟨[provider.audience], [state.discovery.issuer], true, true⟩
            e.now with
        | none => rfl
        | some verified =>
          simp only [Option.bind_some]
          cases verified.asObject with
          | none => rfl
          | some claims => rfl

theorem exec_unclaimed [JsonText] [WildMatch] {config : OidcConfig} {token : Text}
    (hp : claimedProvider config (some token) = none) (w : World) :
    (machine.exec (OidcAuthorizer.authorizeBearer config (some token)) (fun _ => e) w).2 =
      .error .invalidToken := by
  simp only [claimedProvider, Option.bind_eq_bind, Option.bind_some] at hp
  simp only [OidcAuthorizer.authorizeBearer, Prog.bind_eq, exec_orFail_bind]
  cases hclaims : decodeClaimsUnverified token with
  | none => rfl
  | some claims =>
    rw [hclaims] at hp
    simp only [Option.bind_some] at hp ⊢
    cases hissuer : getStringClaim claims "iss".toList with
    | none => rfl
    | some issuer =>
      rw [hissuer, Option.bind_some] at hp
      simp only [hp]

theorem exec_without_kid [JsonText] [WildMatch] {config : OidcConfig} {token : Text}
    (hk : (Jose.decodeHeader token).join = none) (w : World) :
    (machine.exec (OidcAuthorizer.authorizeBearer config (some token)) (fun _ => e) w).2 =
      .error .invalidToken := by
  simp only [OidcAuthorizer.authorizeBearer, Prog.bind_eq, exec_orFail_bind]
  cases decodeClaimsUnverified token with
  | none => rfl
  | some claims =>
    simp only
    cases getStringClaim claims "iss".toList with
    | none => rfl
    | some issuer =>
      simp only
      cases config.providerForIssuer issuer with
      | none => rfl
      | some found =>
        simp only
        cases hh : Jose.decodeHeader token with
        | none => rfl
        | some header =>
          rw [hh, Option.join_some] at hk
          simp only [hk]

def AgreeOnKey {K : Type} (config : OidcConfig) (bearer : Option Text)
    (keyOf : World → Text → Text → Option K) (w v : World) : Prop :=
  ∀ token kid name provider, bearer = some token → Jose.decodeHeader token = some (some kid) →
    claimedProvider config bearer = some (name, provider) → keyOf w name kid = keyOf v name kid

theorem AgreeOnKey.of_sound {config : OidcConfig} {bearer : Option Text}
    (hw : Sound config.providers w) (hv : Sound config.providers v)
    (h : AgreeOnKey config bearer cachedJwk w v) : AgreeOnKey config bearer cachedKey w v := by
  intro token kid name provider ht hk hp
  have hm : (name, provider) ∈ config.providers :=
    claimedProvider_subset config bearer (Option.mem_toList.mpr hp)
  rw [cachedKey_of_sound hw hm, cachedKey_of_sound hv hm, h token kid name provider ht hk hp]

theorem answered_alike [JsonText] [WildMatch] {config : OidcConfig} {bearer : Option Text}
    (h : AgreeOnKey config bearer cachedKey w v) :
    (machine.exec (OidcAuthorizer.authorizeBearer config bearer) (fun _ => e) w).2 =
      (machine.exec (OidcAuthorizer.authorizeBearer config bearer) (fun _ => e) v).2 := by
  cases bearer with
  | none => rfl
  | some token =>
    cases hp : claimedProvider config (some token) with
    | none => rw [exec_unclaimed hp, exec_unclaimed hp]
    | some found =>
      obtain ⟨name, provider⟩ := found
      cases hk : Jose.decodeHeader token with
      | none => rw [exec_without_kid (by rw [hk]; rfl), exec_without_kid (by rw [hk]; rfl)]
      | some header =>
        cases header with
        | none => rw [exec_without_kid (by rw [hk]; rfl), exec_without_kid (by rw [hk]; rfl)]
        | some kid =>
          rw [exec_authorizeBearer hp hk, exec_authorizeBearer hp hk,
            h token kid name provider rfl hk hp]

theorem cache_matters_by_key [JsonText] [WildMatch] (config : OidcConfig) (bearer : Option Text)
    (e : Env) (w v : World)
    (h : AgreeOnKey config bearer cachedKey w v ∨ Sound config.providers w ∧
      Sound config.providers v ∧ AgreeOnKey config bearer cachedJwk w v) :
    (machine.exec (OidcAuthorizer.authorizeBearer config bearer) (fun _ => e) w).2 =
      (machine.exec (OidcAuthorizer.authorizeBearer config bearer) (fun _ => e) v).2 := by
  rcases h with h | ⟨hw, hv, h⟩
  · exact answered_alike h
  · exact answered_alike (h.of_sound hw hv)

end

section Examples

attribute [local instance] standardWildMatch plainJson exampleJose

def stale : World where
  cache := fun name =>
    if name = "ci".toList then
      some ⟨⟨exampleIssuer, "https://ci.example/keys".toList⟩,
        [⟨some "k0".toList, rsaMembers modulus⟩]⟩
    else none
  served := []

theorem stale_matters_not :
    (machine.exec (OidcAuthorizer.authorizeBearer exampleConfig (some exampleToken))
      (fun _ => ⟨exampleResponse, 1800000000⟩) stale).2 =
    (machine.exec (OidcAuthorizer.authorizeBearer exampleConfig (some exampleToken))
      (fun _ => ⟨exampleResponse, 1800000000⟩) .empty).2 := by
  refine cache_matters_by_key exampleConfig (some exampleToken) ⟨exampleResponse, 1800000000⟩ stale
    .empty (Or.inl (fun token kid name provider ht hk _ => ?_))
  cases ht
  have hheader : Jose.decodeHeader exampleToken = some (some "k1".toList) := if_pos rfl
  obtain rfl : "k1".toList = kid := Option.some.inj (Option.some.inj (hheader.symm.trans hk))
  have hnone : cachedKey stale name "k1".toList = none := by
    simp only [cachedKey, stale]
    split <;> rfl
  rw [hnone]
  rfl

end Examples

end Oidc
