import ProjectCache.Access.EnsuredKeys
import ProjectCache.Lib.Rely

namespace EnsuredKeys

open Textual Nix Project Calendar Tables Store Db Programs Signing KeyCrypto Depot SqliteDatabase
  Access

structure GenerateProjectSigningKeyRequest where
  authorization : Option Text
  project : Text
  name : Option Text

structure ImportProjectSigningKeyRequest where
  authorization : Option Text
  project : Text
  signingKey : Text
  name : Option Text

inductive SigningKeyResponse where
  | badRequest
  | serviceUnavailable
  | signingKey (project : ProjectSlug) (publicKey : Text)
  deriving DecidableEq

variable [Base64] [Base64NoPad] [Ed25519] [Ed25519Bytes] [ChaCha20Poly1305]

namespace WriteAppState

variable (state : WriteAppState)

def generateProjectSigningKey (request : GenerateProjectSigningKeyRequest) :
    Action SigningKeyResponse := do
  requireAdminHeaders state.authorizer request.authorization
  match state.keyEncryptionKey with
  | none => return .serviceUnavailable
  | some keyEncryptionKey =>
    match ProjectSlug.parse request.project with
    | .error _ => return .badRequest
    | .ok project => do
      let publicKey ←
        SqliteDatabase.generateProjectSigningKey project request.name keyEncryptionKey
      return .signingKey project publicKey

def requestedSigningKey (signingKey : Text) (name : Option Text) :
    Except ParseSigningKeyError NamedSigningKey := do
  let key ← NamedSigningKey.parse (trim signingKey)
  match name with
  | some name => key.withName name
  | none => return key

def importProjectSigningKey (request : ImportProjectSigningKeyRequest) :
    Action SigningKeyResponse := do
  requireAdminHeaders state.authorizer request.authorization
  match state.keyEncryptionKey with
  | none => return .serviceUnavailable
  | some keyEncryptionKey =>
    match ProjectSlug.parse request.project with
    | .error _ => return .badRequest
    | .ok project =>
      match requestedSigningKey request.signingKey request.name with
      | .error _ => return .badRequest
      | .ok signingKey => do
        let publicKey ←
          SqliteDatabase.importProjectSigningKey project signingKey keyEncryptionKey
        return .signingKey project publicKey

end WriteAppState

end EnsuredKeys

namespace SealedKeys

open Textual Nix Project Calendar Tables Store Db Programs Signing KeyCrypto Depot SqliteDatabase
  Access SigningKeys KeyNames EnsuredKeys

inductive KeyRequest where
  | upsertProject (request : UpsertProjectRequest)
  | generate (request : GenerateProjectSigningKeyRequest)
  | imported (request : ImportProjectSigningKeyRequest)
  | depot (request : Server.Request)

section

variable [Base64] [Base64NoPad] [Ed25519] [Ed25519Bytes] [ChaCha20Poly1305]

def KeyRequest.program [WildMatch] (server : Server) (state : WriteAppState) :
    KeyRequest → Action Unit
  | .upsertProject request => (fun _ => ()) <$> state.upsertProject request
  | .generate request => (fun _ => ()) <$> state.generateProjectSigningKey request
  | .imported request => (fun _ => ()) <$> state.importProjectSigningKey request
  | .depot request => (fun _ => ()) <$> server.program request

def Sealed (kek : Option KeyEncryptionKey) (db : Database) (psk : ProjectSigningKeyRow) : Prop :=
  ∃ p ∈ db.projects.rows, p.id = psk.projectId ∧ ∃ key : NamedSigningKey, key.Trimmed ∧
    psk.name = key.name ∧ psk.publicKey = key.publicKeyText ∧ ∃ k ∈ kek,
      k.decrypt ⟨psk.encryptedPrivateKey, psk.nonce⟩ (projectSigningKeyAad p.slug psk.name) =
        .ok key.privateKeyText

def AllSealed (kek : Option KeyEncryptionKey) (db : Database) : Prop :=
  ∀ psk ∈ db.projectSigningKeys.rows, Sealed kek db psk

def BringsSealed (kek : Option KeyEncryptionKey) (db : Database) (c : Call) : Prop :=
  ∀ row, c = .replaceSigningKey row → Sealed kek db row

variable {kek : Option KeyEncryptionKey} {a b : Database} {psk : ProjectSigningKeyRow}
  {project : ProjectSlug} {w : World}

omit [Base64NoPad] in
theorem Sealed.grows (h : Sealed kek a psk) (hg : Grows a b) : Sealed kek b psk := by
  obtain ⟨p, hp, hi, key, hk, hn, hpub, k, hkek, hd⟩ := h
  obtain ⟨q, hq, hqi, hqs⟩ := hg.projects p hp
  exact ⟨q, hq, hqi.trans hi, key, hk, hn, hpub, k, hkek, hqs ▸ hd⟩

omit [Base64NoPad] in
theorem Sealed.retire (h : Sealed kek a psk) (projectId : Uuid) (now : SqliteTime) :
    Sealed kek a (Database.retireKey projectId now psk) := by
  unfold Database.retireKey
  split
  · exact h
  · exact h

omit [Base64NoPad] in
theorem AllSealed.replace {row : ProjectSigningKeyRow} {now : SqliteTime}
    (h : AllSealed kek a) (hr : Sealed kek a row) (hb : a.replaceSigningKey row now = some b) :
    AllSealed kek b := by
  obtain ⟨hprojects, hrows⟩ := rows_of_replaceSigningKey hb
  have hsame : ∀ {psk}, Sealed kek a psk → Sealed kek b psk := by
    rintro psk ⟨p, hp, hrest⟩
    exact ⟨p, hprojects ▸ hp, hrest⟩
  intro psk hm
  rw [hrows] at hm
  rcases List.mem_append.mp hm with hm | hm
  · obtain ⟨old, hold, rfl⟩ := List.mem_map.mp hm
    exact hsame ((h old hold).retire _ _)
  · obtain rfl := List.mem_singleton.mp hm
    exact hsame hr

omit [Base64NoPad] in
theorem AllSealed.answer {c : Call} (h : AllSealed kek w.db) (hc : BringsSealed kek w.db c)
    (e : Env) : AllSealed kek (answer c e w).1.db := by
  by_cases hw : TableName.projectSigningKeys ∈ c.writes
  · cases c with
    | replaceSigningKey row =>
      rcases answer_state (.replaceSigningKey row) e w with hs | hs
      · rw [hs]
        exact h
      rw [hs]
      cases hd : w.db.replaceSigningKey row e.sqliteNow with
      | none =>
        simp only [carryOut, World.written, hd]
        exact h
      | some db =>
        simp only [carryOut, World.written, hd]
        exact h.replace (hc row rfl) hd
    | _ => simp [Call.writes] at hw
  · intro psk hm
    rw [(answer_frame c e w).projectSigningKeys hw] at hm
    exact (h psk hm).grows (answer_grows c e w)

structure Later (kek : Option KeyEncryptionKey) (v w : World) : Prop where
  grows : Grows v.db w.db
  keys : AllSealed kek v.db → AllSealed kek w.db

def surrounding (kek : Option KeyEncryptionKey) : machine.Surrounding where
  later := Later kek
  admits := fun _ _ => True

def Seals {A : Type} (kek : Option KeyEncryptionKey) (post : Except Error A → World → Prop)
    (p : Action A) (w : World) : Prop :=
  Outline (surrounding kek) (fun c _ v _ => BringsSealed kek v.db c) post p w

section

variable {A B : Type}

omit [Base64NoPad] in
theorem brings_of_reads {c : Call} (hc : c.reads = true) (db : Database) :
    BringsSealed kek db c := by
  rintro row rfl
  cases hc

omit [Base64NoPad] in
theorem Seals.bind {p : Action A} {f : A → Action B} {post : Except Error B → World → Prop}
    (h : Seals kek (onOk (fun a v => Seals kek post (f a) v) post) p w) :
    Seals kek post (p.bind f) w := Outline.bind h

omit [Base64NoPad] in
theorem Seals.mono {p : Action A} {post post' : Except Error A → World → Prop}
    (h : Seals kek post p w) (hp : ∀ r v, post r v → post' r v) : Seals kek post' p w :=
  Outline.mono h (fun _ _ _ _ _ h => h) hp

omit [Base64NoPad] in
theorem seals_then {p : Action A} {f : A → Action B}
    (hp : p.Uses (fun c : Call => c.reads = true))
    (hf : ∀ a v, Seals kek (fun _ _ => True) (f a) v) :
    Seals kek (fun _ _ => True) (p.bind f) w := by
  refine Seals.bind (Outline.mono (Outline.of_uses hp) (fun c e v _ _ hc => brings_of_reads hc _)
    (fun r v _ => ?_))
  cases r with
  | ok a => exact hf a v
  | error x => trivial

omit [Base64NoPad] in
theorem seals_perform {c : Call} {post : Except Error c.Reply → World → Prop}
    (hc : c.reads = true) (h : ∀ v, Later kek w v → ∀ r, post r v) :
    Seals kek post (perform c) w := by
  intro v hv e _
  refine ⟨brings_of_reads hc _, ?_⟩
  change post (answer c e v).2 (answer c e v).1
  rw [answer_of_reads hc]
  exact h v hv _

omit [Base64NoPad] in
theorem seals_projectIdBySlug {post : Except Error Uuid → World → Prop}
    (hok : ∀ v, ∀ p ∈ v.db.projects.rows, p.slug = project → post (.ok p.id) v)
    (herror : ∀ x v, post (.error x) v) : Seals kek post (projectIdBySlug project) w := by
  refine Seals.bind (outline_select (fun v _ e _ => ⟨fun _ => brings_of_reads rfl _, ?_,
    fun x => herror x v⟩))
  change Seals kek post (orFail ((v.db.projectBySlug project).map ProjectRow.id) _) v
  cases hp : v.db.projectBySlug project with
  | none => exact herror _ v
  | some p =>
    obtain ⟨hm, hs⟩ := Database.projectBySlug_eq_some.mp hp
    exact hok v p hm hs

theorem seals_replaceProjectSigningKey (f : Base64.Faithful) (o : ChaCha20Poly1305.Opens)
    {key : NamedSigningKey} (hk : key.Trimmed) {k : KeyEncryptionKey} (hkek : k ∈ kek) :
    Seals kek (fun _ _ => True) (replaceProjectSigningKey project key k) w := by
  refine Seals.bind (seals_projectIdBySlug (fun v p hp hs => ?_) (fun _ _ => trivial))
  have hproject : ∀ {v' : World}, Grows v.db v'.db →
      ∃ q ∈ v'.db.projects.rows, q.id = p.id ∧ q.slug = project := by
    intro v' hg
    obtain ⟨q, hq, hqi, hqs⟩ := hg.projects p hp
    exact ⟨q, hq, hqi, hqs.trans hs⟩
  refine Seals.bind (seals_perform rfl (fun v₁ hv₁ id => ?_))
  cases id with
  | error x => trivial
  | ok id =>
    refine Seals.bind (Seals.bind ?_)
    intro v₂ hv₂ e _
    refine ⟨brings_of_reads rfl _, ?_⟩
    change onOk _ _ ((answer (.fill 12) e v₂).2.mapError _) (answer (.fill 12) e v₂).1
    rw [answer_of_reads rfl]
    cases (answer (.fill 12) e v₂).2 with
    | error x => trivial
    | ok nonce =>
      change Seals kek _ (ofExcept .keyEncryption (k.encrypt nonce key.privateKeyText
        (projectSigningKeyAad project key.name))) v₂
      cases he : k.encrypt nonce key.privateKeyText (projectSigningKeyAad project key.name) with
      | error x => trivial
      | ok encrypted =>
        refine Seals.bind ?_
        intro v₃ hv₃ e' _
        refine ⟨?_, ?_⟩
        · rintro row ⟨⟩
          obtain ⟨q, hq, hqi, hqs⟩ := hproject ((hv₁.grows.trans hv₂.grows).trans hv₃.grows)
          refine ⟨q, hq, hqi, key, hk, rfl, rfl, k, hkek, ?_⟩
          rw [hqs]
          exact k.decrypt_encrypt f o he
        · generalize (answer _ e' v₃).2 = reply
          cases reply <;> trivial

variable {k : KeyEncryptionKey}

theorem seals_generateProjectSigningKey (f : Base64.Faithful) (o : ChaCha20Poly1305.Opens)
    (hkek : k ∈ kek) (name : Option Text) :
    Seals kek (fun _ _ => True) (generateProjectSigningKey project name k) w := by
  have hnamed : ∀ given v, Seals kek (fun _ _ => True) ((generateNamedSigningKey given).bind
      (fun key => replaceProjectSigningKey project key k)) v := by
    intro given v
    unfold generateNamedSigningKey
    split
    · trivial
    · rename_i hne
      intro v₁ hv₁ e _
      refine ⟨brings_of_reads rfl _, ?_⟩
      generalize (answer (.fill 32) e v₁).2 = seed
      cases seed with
      | error x => trivial
      | ok seed => exact seals_replaceProjectSigningKey f o ⟨trim_trim given, hne⟩ hkek
  unfold generateProjectSigningKey
  cases name.filter (fun name => trim name ≠ []) with
  | some given => exact hnamed (trim given) w
  | none =>
    have hreads : (nextProjectSigningKeyName project).Uses (fun c : Call => c.reads = true) :=
      (uses_projectIdBySlug (fun _ h => h) project).bind
        (fun _ => (uses_select (fun _ h => h) _).bind (fun _ => trivial))
    exact seals_then hreads hnamed

theorem seals_ensureProjectSigningKey (f : Base64.Faithful) (o : ChaCha20Poly1305.Opens)
    (hkek : k ∈ kek) : Seals kek (fun _ _ => True) (ensureProjectSigningKey project k) w := by
  have hreads : (activeProjectSigningKeyPublic project).Uses (fun c : Call => c.reads = true) :=
    (uses_select (fun _ h => h) _).bind (fun _ => trivial)
  refine seals_then hreads (fun found v => ?_)
  cases found with
  | some publicKey => trivial
  | none => exact seals_generateProjectSigningKey f o hkek none

omit [Base64] [Base64NoPad] [Ed25519] [Ed25519Bytes] [ChaCha20Poly1305] in
theorem reads_requireAdminHeaders (authorizer : Authorizer) (authorization : Option Text) :
    (requireAdminHeaders authorizer authorization).Uses (fun c : Call => c.reads = true) :=
  (uses_authenticateHeaders (fun _ h => h) _ _).bind (fun _ =>
    (uses_authorizeAdmin _).bind (fun _ => trivial))

omit [ChaCha20Poly1305] in
theorem requestedSigningKey_trimmed {signingKey : Text} {name : Option Text}
    {key : NamedSigningKey}
    (h : WriteAppState.requestedSigningKey signingKey name = .ok key) : key.Trimmed := by
  obtain ⟨parsed, hp, h⟩ := bind_eq_ok.mp h
  cases name with
  | none =>
    cases h
    exact (NamedSigningKey.parse_trimmed hp).1
  | some name =>
    obtain ⟨hne, rfl⟩ := NamedSigningKey.withName_eq_ok.mp h
    exact ⟨trim_trim name, hne⟩

omit [Base64NoPad] in
theorem seals_map {p : Action A} {g : A → B} (h : Seals kek (fun _ _ => True) p w) :
    Seals kek (fun _ _ => True) (g <$> p) w := by
  refine Seals.bind (h.mono (fun r v _ => ?_))
  cases r <;> trivial

theorem seals_upsertProject (f : Base64.Faithful) (o : ChaCha20Poly1305.Opens)
    (state : WriteAppState) (request : UpsertProjectRequest) :
    Seals state.keyEncryptionKey (fun _ _ => True) (state.upsertProject request) w := by
  refine seals_then (reads_requireAdminHeaders _ _) (fun _ v => ?_)
  cases ProjectSlug.parse request.slug with
  | error x => trivial
  | ok project =>
    cases requestedStorageId state.storageCatalog request.storageId with
    | none => trivial
    | some storageId =>
      have hinsert : (insertProject project request.displayName request.isPublic storageId).Uses
          (fun c => ∀ db, BringsSealed state.keyEncryptionKey db c) := by
        refine (uses_reading (fun _ h => brings_of_reads h) rfl).bind (fun id =>
          Prog.uses_perform (fun db row h => ?_))
        cases h
      refine Seals.bind (Outline.mono (Outline.of_uses hinsert) (fun c e v _ _ hc => hc v.db)
        (fun r v _ => ?_))
      cases r with
      | error x => trivial
      | ok u =>
        change Seals _ _ (state.ensureIfConfigured project) v
        unfold WriteAppState.ensureIfConfigured
        split
        · trivial
        · rename_i k hk
          exact seals_map (seals_ensureProjectSigningKey f o hk)

theorem seals_program [WildMatch] (f : Base64.Faithful) (o : ChaCha20Poly1305.Opens)
    (server : Server) (state : WriteAppState) (q : KeyRequest) :
    Seals state.keyEncryptionKey (fun _ _ => True) (q.program server state) w := by
  cases q with
  | upsertProject request => exact seals_map (seals_upsertProject f o state request)
  | generate request =>
    refine seals_map (seals_then (reads_requireAdminHeaders _ _) (fun _ v => ?_))
    split
    · trivial
    · rename_i k hk
      split
      · trivial
      · exact seals_map (seals_generateProjectSigningKey f o hk request.name)
  | imported request =>
    refine seals_map (seals_then (reads_requireAdminHeaders _ _) (fun _ v => ?_))
    split
    · trivial
    · rename_i k hk
      split
      · trivial
      · split
        · trivial
        · rename_i key hkey
          exact seals_map (seals_replaceProjectSigningKey f o (requestedSigningKey_trimmed hkey)
            hk)
  | depot request =>
    refine seals_map (Outline.mono (Outline.of_uses (server.program_uses request))
      (fun c e v _ _ hc => ?_) (fun _ _ _ => trivial))
    rintro row rfl
    cases hc with
    | reads h => cases h

end

structure KeysRun where
  server : Server
  state : WriteAppState
  start : World
  empty : start.db.projectSigningKeys.rows = []
  schedule : Pool.Schedule machine KeyRequest

namespace KeysRun

variable [WildMatch]

def pool (r : KeysRun) (n : Nat) : Pool machine KeyRequest Unit :=
  Pool.run (KeyRequest.program r.server r.state) ⟨r.start, []⟩ r.schedule n

def world (r : KeysRun) (n : Nat) : World := (r.pool n).state

theorem relies (f : Base64.Faithful) (o : ChaCha20Poly1305.Opens) (server : Server)
    (state : WriteAppState) :
    Pool.Relies (M := machine) (KeyRequest.program server state)
      (surrounding state.keyEncryptionKey)
      (fun _ c _ v => BringsSealed state.keyEncryptionKey v.db c) (fun _ _ _ => True)
      (fun v => AllSealed state.keyEncryptionKey v.db) where
  refl _ := ⟨Grows.refl _, id⟩
  trans hab hbc := ⟨hab.grows.trans hbc.grows, fun h => hbc.keys (hab.keys h)⟩
  kept h hl := hl.keys h
  stable _ _ := trivial
  outline q _ _ := seals_program f o server state q
  guarantee hc _ := ⟨answer_grows _ _ _, fun h => h.answer hc _⟩

theorem all_sealed (f : Base64.Faithful) (o : ChaCha20Poly1305.Opens) (r : KeysRun) (n : Nat) :
    AllSealed r.state.keyEncryptionKey (r.world n).db := by
  refine ((relies f o r.server r.state).run rfl ?_ (fun _ => trivial) n).1
  intro psk hm
  rw [r.empty] at hm
  cases hm

end KeysRun

end

end SealedKeys
