import ProjectCache.Access.SealedKeys
import ProjectCache.Read.Vouching

namespace Read

open Textual Nix Project Narinfo Signing KeyCrypto Store Db Depot Programs SqliteDatabase

structure DbProjectSigningKeys where
  keyEncryptionKey : KeyEncryptionKey

section

variable [Base64] [Base64NoPad] [Ed25519] [Ed25519Bytes] [ChaCha20Poly1305]

namespace DbProjectSigningKeys

variable (keys : DbProjectSigningKeys)

def publicKey (_ : DbProjectSigningKeys) (project : ProjectSlug) : Action (Option Text) :=
  activeProjectSigningKeyPublic project

def signingKey (project : ProjectSlug) : Action (Option NamedSigningKey) :=
  activeProjectSigningKey project keys.keyEncryptionKey

end DbProjectSigningKeys

structure KeyedReadService where
  storeDir : StoreDir
  storageCatalog : StorageCatalog
  aggregateSigningKey : Option NamedSigningKey
  projectSigningKeys : Option DbProjectSigningKeys

namespace KeyedReadService

variable (service : KeyedReadService)

def projectSigningKey (project : ProjectSlug) : Action (Option NamedSigningKey) :=
  match service.projectSigningKeys with
  | none => return none
  | some keys => keys.signingKey project

def projectSigningKeysForProject (project : ProjectSlug) : Action (List NamedSigningKey) := do
  let projectKey ← service.projectSigningKey project
  return projectKey.toList ++ service.aggregateSigningKey.toList

def signingKeysForView : DepotView → Action (List NamedSigningKey)
  | .aggregate => return service.aggregateSigningKey.toList
  | .project project => service.projectSigningKeysForProject project

def renderSignedNarinfo (view : DepotView) (narinfo : NarInfo) : Action Text := do
  let signingKeys ← service.signingKeysForView view
  let localSignatures ← ofExcept .fingerprint
    (NarInfoSigner.sign ⟨service.storeDir, signingKeys⟩ narinfo)
  ofExcept .narHash (NarInfoRenderer.renderWithSignatures ⟨service.storeDir⟩ narinfo
    (narinfo.signatures ++ localSignatures))

def renderNarinfo (view : DepotView) (h : StorePathHash) : Action (Option Text) := do
  match ← resolveNarinfo view h with
  | some narinfo => do
    let text ← service.renderSignedNarinfo view narinfo
    return some text
  | none => do
    let upstreams ← upstreamsForView view
    match ← fetchNarinfo h upstreams with
    | none => return none
    | some narinfoText => do
      let narinfo ← ofExcept .parseNarinfo (parseNarinfo narinfoText service.storeDir)
      let text ← service.renderSignedNarinfo view narinfo
      return some text

def getObject (view : DepotView) (objectPath : Text) :
    Action (Option (BlobMetadata × BlobBytes)) :=
  ReadService.getObject ⟨service.storeDir, service.storageCatalog, service.aggregateSigningKey,
    none⟩ view objectPath

def projectPublicKey (project : ProjectSlug) : Action (Option Text) :=
  match service.projectSigningKeys with
  | none => return none
  | some keys => keys.publicKey project

def projectPublicKeys (project : ProjectSlug) : Action (List Text) := do
  let publicKey ← service.projectPublicKey project
  return publicKey.toList ++
    (service.aggregateSigningKey.map NamedSigningKey.publicKeyText).toList

def publicKeyTextsForView : DepotView → Action (List Text)
  | .aggregate => return (service.aggregateSigningKey.map NamedSigningKey.publicKeyText).toList
  | .project project => service.projectPublicKeys project

end KeyedReadService

structure ReadAppState where
  readService : KeyedReadService
  priority : UInt32

def cacheInfoText (storeDir : StoreDir) (priority : UInt32) (publicKeys : List Text) : Text :=
  "StoreDir: ".toList ++ storeDir.path ++ "\nWantMassQuery: 1\nPriority: ".toList ++
    decimal priority.toNat ++ '\n' ::
      publicKeys.flatMap (fun publicKey => "PublicKey: ".toList ++ publicKey ++ ['\n'])

def ReadAppState.nixCacheInfoText (state : ReadAppState) (view : DepotView) : Action Text := do
  let publicKeys ← state.readService.publicKeyTextsForView view
  return cacheInfoText state.readService.storeDir state.priority publicKeys

end

end Read

namespace Announced

open Textual Nix Project Tables Store Db Programs Narinfo Signing KeyCrypto Depot Read
  SqliteDatabase SigningKeys SealedKeys Vouching

class Verifier where
  verify : (publicKey : List UInt8) → (message : ByteArray) → (signature : List UInt8) → Bool

section

variable [Base64] [Base64NoPad] [Ed25519] [Ed25519Bytes] [ChaCha20Poly1305]

def found (keys : DbProjectSigningKeys) (db : Database) (project : ProjectSlug) :
    Option NamedSigningKey := do
  let record ← db.activeSigningKey project
  let privateKeyText ← (keys.keyEncryptionKey.decrypt
    ⟨record.encryptedPrivateKey, record.nonce⟩
    (projectSigningKeyAad record.projectSlug record.name)).toOption
  (NamedSigningKey.parse privateKeyText).toOption

def withKeys (service : KeyedReadService) (db : Database) : ReadService where
  storeDir := service.storeDir
  storageCatalog := service.storageCatalog
  aggregateSigningKey := service.aggregateSigningKey
  projectSigningKeys := service.projectSigningKeys.map (fun keys => found keys db)

def Loads (service : KeyedReadService) (db : Database) : DepotView → Prop
  | .aggregate => True
  | .project project => ∀ keys ∈ service.projectSigningKeys, ∀ record,
      db.activeSigningKey project = some record → ∃ key, found keys db project = some key

variable {service : KeyedReadService} {view : DepotView} {hash : StorePathHash} {es : Nat → Env}
  {w : World} {n : NarInfo} {text : Text}

theorem exec_signingKey_bind {keys : DbProjectSigningKeys} {project : ProjectSlug} {A : Type}
    {f : Option NamedSigningKey → Action A} {a : A}
    (h : (machine.exec ((keys.signingKey project).bind f) es w).2 = .ok a) :
    (∀ record, w.db.activeSigningKey project = some record →
      ∃ key, found keys w.db project = some key) ∧
    ∃ es', (machine.exec (f (found keys w.db project)) es' w).2 = .ok a := by
  rw [DbProjectSigningKeys.signingKey, activeProjectSigningKey, Prog.bind_eq, Prog.bind_assoc] at h
  have h := exec_select_bind h
  unfold found
  cases hrecord : w.db.activeSigningKey project with
  | none =>
    rw [hrecord] at h
    exact ⟨fun _ h => (by cases h), _, h⟩
  | some record =>
    rw [hrecord] at h
    change (machine.exec (Prog.bind (Prog.bind (ofExcept .keyEncryption _) _) f) _ w).2 = _ at h
    rw [Prog.bind_assoc] at h
    obtain ⟨privateKeyText, hd, h⟩ := exec_ofExcept_bind h
    rw [Prog.bind_eq, Prog.bind_assoc] at h
    obtain ⟨key, hk, h⟩ := exec_ofExcept_bind h
    have hfound : (do
        let record ← some record
        let privateKeyText ← (keys.keyEncryptionKey.decrypt
          ⟨record.encryptedPrivateKey, record.nonce⟩
          (projectSigningKeyAad record.projectSlug record.name)).toOption
        (NamedSigningKey.parse privateKeyText).toOption) = some key := by
      simp [hd, hk, Except.toOption]
    rw [hfound]
    exact ⟨fun _ _ => ⟨key, rfl⟩, _, h⟩

theorem exec_keyed_bind {A : Type} {f : List NamedSigningKey → Action A} {a : A}
    (h : (machine.exec ((service.signingKeysForView view).bind f) es w).2 = .ok a) :
    Loads service w.db view ∧
      ∃ es', (machine.exec (f (keysFor (withKeys service w.db) view)) es' w).2 = .ok a := by
  cases view with
  | aggregate => exact ⟨trivial, es, h⟩
  | project project =>
    rw [KeyedReadService.signingKeysForView, KeyedReadService.projectSigningKeysForProject,
      Prog.bind_eq, Prog.bind_assoc, KeyedReadService.projectSigningKey] at h
    simp only [Loads, keysFor, withKeys]
    cases hk : service.projectSigningKeys with
    | none =>
      rw [hk] at h
      exact ⟨fun _ h => (by cases h), es, h⟩
    | some keys =>
      rw [hk] at h
      obtain ⟨hload, es', h⟩ := exec_signingKey_bind h
      refine ⟨?_, es', h⟩
      rintro _ ⟨⟩
      exact hload

theorem signed_keyed {A : Type} {f : Text → Action A} {a : A}
    (h : (machine.exec ((service.renderSignedNarinfo view n).bind f) es w).2 = .ok a) :
    Loads service w.db view ∧ ∃ signatures text es',
      NarInfoSigner.sign ⟨service.storeDir, keysFor (withKeys service w.db) view⟩ n =
        .ok signatures ∧
      NarInfoRenderer.renderWithSignatures ⟨service.storeDir⟩ n (n.signatures ++ signatures) =
        .ok text ∧ (machine.exec (f text) es' w).2 = .ok a := by
  rw [KeyedReadService.renderSignedNarinfo, Prog.bind_eq, Prog.bind_assoc] at h
  obtain ⟨hload, es', h⟩ := exec_keyed_bind h
  rw [Prog.bind_eq, Prog.bind_assoc] at h
  obtain ⟨signatures, hs, h⟩ := exec_ofExcept_bind h
  obtain ⟨text, ht, h⟩ := exec_ofExcept_bind h
  exact ⟨hload, signatures, text, es', hs, ht, h⟩

theorem keyed_answers
    (h : (machine.exec (service.renderNarinfo view hash) es w).2 = .ok (some text)) :
    Loads service w.db view ∧ ∃ n signatures,
      Answers (withKeys service w.db) view hash es w.db n signatures text := by
  rw [KeyedReadService.renderNarinfo, Prog.bind_eq] at h
  rcases exec_resolve_bind h with ⟨row, es', hrow, h⟩ | ⟨hnone, h⟩
  · obtain ⟨hload, signatures, text', es', hs, ht, h⟩ := signed_keyed h
    cases h
    exact ⟨hload, _, signatures, .recorded row hrow, hs, ht⟩
  · have h := exec_upstreams_bind h
    obtain ⟨es', h⟩ := exec_fetch_bind h
    cases hfound : fetchedText hash (upstreamsIn w.db view) (fun k => es (k + 2)) with
    | none =>
      rw [hfound] at h
      cases h
    | some found =>
      rw [hfound] at h
      obtain ⟨n, hn, h⟩ := exec_ofExcept_bind h
      obtain ⟨hload, signatures, text', es', hs, ht, h⟩ := signed_keyed h
      cases h
      exact ⟨hload, n, signatures, .fetched found n hnone hfound hn, hs, ht⟩

omit [Base64NoPad] [ChaCha20Poly1305] in
theorem exec_publicKeys_bind {A : Type} {f : List Text → Action A} {a : A}
    (h : (machine.exec ((service.publicKeyTextsForView view).bind f) es w).2 = .ok a) :
    ∃ publicKeys es', (machine.exec (f publicKeys) es' w).2 = .ok a ∧
      ∀ publicKey ∈ publicKeys,
        (∃ key ∈ service.aggregateSigningKey, publicKey = key.publicKeyText) ∨
        ∃ project, view = .project project ∧ service.projectSigningKeys.isSome = true ∧
          ∃ record, w.db.activeSigningKey project = some record ∧
            publicKey = record.publicKey := by
  have haggregate : ∀ publicKey ∈
      (service.aggregateSigningKey.map NamedSigningKey.publicKeyText).toList,
      ∃ key ∈ service.aggregateSigningKey, publicKey = key.publicKeyText := by
    intro publicKey hm
    obtain ⟨key, hk, rfl⟩ := Option.map_eq_some_iff.mp (Option.mem_toList.mp hm)
    exact ⟨key, hk, rfl⟩
  cases view with
  | aggregate => exact ⟨_, es, h, fun publicKey hm => .inl (haggregate publicKey hm)⟩
  | project project =>
    rw [KeyedReadService.publicKeyTextsForView, KeyedReadService.projectPublicKeys,
      Prog.bind_eq, Prog.bind_assoc, KeyedReadService.projectPublicKey] at h
    cases hk : service.projectSigningKeys with
    | none =>
      rw [hk] at h
      exact ⟨_, es, h, fun publicKey hm => .inl (haggregate publicKey hm)⟩
    | some keys =>
      rw [hk] at h
      simp only [DbProjectSigningKeys.publicKey, activeProjectSigningKeyPublic,
        activeProjectSigningKeyRecord, Prog.bind_eq, Prog.bind_assoc] at h
      have h := exec_select_bind h
      refine ⟨_, _, h, fun publicKey hm => ?_⟩
      rcases List.mem_append.mp hm with hm | hm
      · obtain ⟨record, hr, rfl⟩ := Option.map_eq_some_iff.mp (Option.mem_toList.mp hm)
        exact .inr ⟨project, rfl, rfl, record, hr, rfl⟩
      · exact .inl (haggregate publicKey hm)

theorem found_of_sealed (f : Base64.Faithful) (s : Ed25519Bytes.SeedDetermines)
    {keys : DbProjectSigningKeys} {project : ProjectSlug} {psk : ProjectSigningKeyRow}
    {db db' : Database} (hs : Sealed (some keys.keyEncryptionKey) db psk)
    (hstored : Stored db project psk) (hlater : Stored db' project psk)
    (hload : ∃ key, found keys db' project = some key) :
    ∃ key, found keys db' project = some key ∧ ':' ∉ key.name ∧
      psk.publicKey = key.publicKeyText := by
  obtain ⟨p, hp, hi, key, hk, hname, hpublic, _, ⟨⟩, hd⟩ := hs
  obtain ⟨q, hq, hqi, rfl⟩ := hstored.project
  obtain rfl : p = q := Database.project_eq_of_id hp hq (hi.trans hqi.symm)
  have hfound : found keys db' p.slug = (NamedSigningKey.parse key.privateKeyText).toOption := by
    rw [found, hlater.activeSigningKey]
    simp [recordOf, hd, Except.toOption]
  have hcolon : ':' ∉ key.name := by
    intro hc
    obtain ⟨other, ho⟩ := hload
    rw [hfound] at ho
    cases hparse : NamedSigningKey.parse key.privateKeyText with
    | error x =>
      rw [hparse] at ho
      cases ho
    | ok parsed => exact NamedSigningKey.parse_privateKeyText_colon f hc parsed hparse
  refine ⟨key, ?_, hcolon, hpublic⟩
  rw [hfound, NamedSigningKey.parse_privateKeyText f s hk hcolon]
  rfl

def Verifier.Checks [Verifier] : Prop :=
  ∀ key message, Verifier.verify (Ed25519Bytes.verifyingKey key) message
    (Ed25519.sign key message) = true

def Vouches [Verifier] (publicKey : Text) (message : ByteArray) (signature : Text) : Prop :=
  ∃ name keyText signatureText keyBytes signatureBytes,
    splitOnce ':' publicKey = some (name, keyText) ∧
    splitOnce ':' signature = some (name, signatureText) ∧
    Base64.decode keyText = .ok keyBytes ∧ Base64.decode signatureText = .ok signatureBytes ∧
    Verifier.verify keyBytes message signatureBytes = true

omit [ChaCha20Poly1305] in
theorem vouches_of_key [Verifier] (f : Base64.Faithful) (hv : Verifier.Checks)
    {key : NamedSigningKey} (hc : ':' ∉ key.name) (message : ByteArray) :
    Vouches key.publicKeyText message (key.signMessage message) :=
  ⟨key.name, _, _, _, _, splitOnce_append hc _, splitOnce_append hc _, f.decode_encode _,
    f.decode_encode _, hv key.key message⟩

theorem signs_for_announced (f : Base64.Faithful) (s : Ed25519Bytes.SeedDetermines)
    {db db' : Database}
    (hs : AllSealed (service.projectSigningKeys.map DbProjectSigningKeys.keyEncryptionKey) db)
    (hkept : ∀ project psk, view = .project project → Stored db project psk →
      Stored db' project psk)
    (ha : ∀ key ∈ service.aggregateSigningKey, ∃ input, NamedSigningKey.parse input = .ok key)
    (hload : Loads service db' view) {publicKey : Text}
    (hp : (∃ key ∈ service.aggregateSigningKey, publicKey = key.publicKeyText) ∨
      ∃ project, view = .project project ∧ service.projectSigningKeys.isSome = true ∧
        ∃ record, db.activeSigningKey project = some record ∧ publicKey = record.publicKey) :
    ∃ key ∈ keysFor (withKeys service db') view, ':' ∉ key.name ∧
      publicKey = key.publicKeyText := by
  rcases hp with ⟨key, hk, rfl⟩ | ⟨project, rfl, hsome, record, hr, rfl⟩
  · obtain ⟨input, hi⟩ := ha key hk
    refine ⟨key, ?_, (NamedSigningKey.parse_trimmed hi).2, rfl⟩
    cases view with
    | aggregate => exact Option.mem_toList.mpr hk
    | project project => exact List.mem_append_right _ (Option.mem_toList.mpr hk)
  · obtain ⟨keys, hkeys⟩ := Option.isSome_iff_exists.mp hsome
    obtain ⟨psk, hstored, rfl⟩ := Stored.of_activeSigningKey hr
    have hsealed := hs psk hstored.row
    rw [hkeys] at hsealed
    have hlater := hkept project psk rfl hstored
    obtain ⟨key, hfound, hcolon, hpublic⟩ := found_of_sealed f s hsealed hstored hlater
      (hload keys hkeys _ hlater.activeSigningKey)
    refine ⟨key, List.mem_append_left _ (Option.mem_toList.mpr ?_), hcolon, hpublic⟩
    simp [withKeys, hkeys, hfound]

theorem announced_keys_vouch [WildMatch] [Verifier] (f : Base64.Faithful)
    (s : Ed25519Bytes.SeedDetermines) (o : ChaCha20Poly1305.Opens) (hv : Verifier.Checks)
    (r : KeysRun) (n : Nat) (state : ReadAppState)
    (hkeys : state.readService.projectSigningKeys =
      r.state.keyEncryptionKey.map DbProjectSigningKeys.mk)
    (ha : ∀ key ∈ state.readService.aggregateSigningKey,
      ∃ input, NamedSigningKey.parse input = .ok key)
    (view : DepotView) (v : World)
    (hu : ∀ project, view = .project project → Unreplaced project (r.world n) v)
    {es es' : Nat → Env} {info text : Text} {hash : StorePathHash}
    (hinfo : (machine.exec (state.nixCacheInfoText view) es (r.world n)).2 = .ok info)
    (htext : (machine.exec (state.readService.renderNarinfo view hash) es' v).2 =
      .ok (some text)) :
    ∃ publicKeys narinfo signatures message,
      info = cacheInfoText state.readService.storeDir state.priority publicKeys ∧
      NarInfoRenderer.renderWithSignatures ⟨state.readService.storeDir⟩ narinfo signatures =
        .ok text ∧
      NarInfoSigner.fingerprint ⟨state.readService.storeDir, []⟩ narinfo = .ok message ∧
      ∀ publicKey ∈ publicKeys, ∃ signature ∈ signatures, Vouches publicKey message signature := by
  obtain ⟨publicKeys, es₁, hinfo, hannounced⟩ := exec_publicKeys_bind hinfo
  cases hinfo
  obtain ⟨hload, narinfo, signatures, hanswers⟩ := keyed_answers htext
  obtain ⟨message, hmessage, hsigned⟩ := (NarInfoSigner.sign_eq_ok _).mp hanswers.signed
  refine ⟨publicKeys, narinfo, narinfo.signatures ++ signatures, message, rfl, hanswers.printed,
    hmessage, fun publicKey hm => ?_⟩
  have hsealed := KeysRun.all_sealed f o r n
  have hsame : state.readService.projectSigningKeys.map DbProjectSigningKeys.keyEncryptionKey =
      r.state.keyEncryptionKey := by
    rw [hkeys]
    cases r.state.keyEncryptionKey <;> rfl
  obtain ⟨key, hkey, hcolon, rfl⟩ := signs_for_announced f s (hsame ▸ hsealed)
    (fun project psk hview hstored => hstored.unreplaced (hu project hview)) ha hload
    (hannounced publicKey hm)
  refine ⟨key.signMessage message, List.mem_append_right _ ?_, vouches_of_key f hv hcolon message⟩
  rw [hsigned]
  exact List.mem_map_of_mem hkey

end

section Examples

open SigningKeys TokenExpiry Depot.Server Isolation Confinement EnsuredKeys

def helloSignature : List UInt8 :=
  [142, 177, 172, 249, 149, 195, 111, 186, 194, 158, 125, 156, 3, 77, 197, 227, 132, 92, 26, 49,
    112, 213, 34, 189, 40, 205, 150, 163, 180, 23, 140, 211, 90, 105, 238, 147, 166, 224, 213, 240,
    104, 47, 103, 141, 126, 28, 55, 144, 5, 120, 197, 118, 223, 166, 14, 71, 154, 20, 39, 210, 234,
    198, 201, 6]

@[reducible] def helloEd25519 : Ed25519 where
  SigningKey := RandomBytes 32
  sign := fun _ _ => helloSignature

attribute [local instance] standardBase64 standardNoPad standardWildMatch helloEd25519 exampleCipher

@[reducible] def helloEd25519Bytes : Ed25519Bytes where
  fromBytes := fun bytes => if h : bytes.length = 32 then ⟨bytes, h⟩ else zeroSeed
  fromKeypairBytes := fun _ => .error []
  toBytes := fun key => key.val
  verifyingKey := fun _ => [59, 106, 39, 188, 206, 182, 164, 45, 98, 163, 168, 208, 42, 111, 13,
    115, 101, 50, 21, 119, 29, 226, 67, 166, 58, 192, 72, 161, 139, 89, 218, 41]

attribute [local instance] helloEd25519Bytes

@[reducible] def helloVerifier : Verifier where
  verify := fun publicKey _ signature =>
    publicKey = helloEd25519Bytes.verifyingKey zeroSeed && signature = helloSignature

attribute [local instance] helloVerifier

def generatingScript : List (Choice KeyRequest) :=
  .submit (.generate ⟨none, "example".toList, some "ci".toList⟩) :: List.replicate 8 (.advance 0)

def generatingRun : KeysRun where
  server := exampleServer
  state := ⟨constantAuthorizer ⟨"admin".toList, none, .bootstrapAdmin⟩,
    exampleServer.storageCatalog, some exampleKek⟩
  start := publicWorld
  empty := rfl
  schedule :=
    { choice := fun n => generatingScript.getD n .idle
      env := fun n => { exampleCreation with uuid := BitVec.ofNat 128 (n + 1) } }

def announcing : ReadAppState where
  readService := ⟨StoreDir.defaultNix, exampleServer.storageCatalog, none, some ⟨exampleKek⟩⟩
  priority := 40

def announcedText : Text :=
  ("StoreDir: /nix/store\nWantMassQuery: 1\nPriority: 40\n" ++
    "PublicKey: ci:O2onvM62pC1io6jQKm8Nc2UyFXcd4kOmOsBIoYtZ2ik=\n").toList

def signedText : Text :=
  ("StorePath: /nix/store/26xbg1ndr7hbcncrlf9nhx5is2b25d13-hello-2.12.1\n" ++
    "URL: nar/020ay2q1av2xs4n842rb3d7vz8qms1dcb87a5yd6azaci20x11lz.nar.zst\n" ++
    "Compression: zstd\n" ++
    "NarHash: sha256:020ay2q1av2xs4n842rb3d7vz8qms1dcb87a5yd6azaci20x11lz\n" ++
    "NarSize: 226560\n" ++ "References: \n" ++
    "Sig: ci:jrGs+ZXDb7rCnn2cA03F44RcGjFw1SK9KM2Wo7QXjNNaae6TpuDV8Ggv" ++
    "Z41+HDeQBXjFdt+mDkeaFCfS6sbJBg==\n").toList

theorem hello_vouched :
    ∃ publicKeys narinfo signatures message,
      announcedText = cacheInfoText StoreDir.defaultNix 40 publicKeys ∧
      NarInfoRenderer.renderWithSignatures ⟨StoreDir.defaultNix⟩ narinfo signatures =
        .ok signedText ∧
      NarInfoSigner.fingerprint ⟨StoreDir.defaultNix, []⟩ narinfo = .ok message ∧
      ∀ publicKey ∈ publicKeys, ∃ signature ∈ signatures, Vouches publicKey message signature := by
  have hseed : Ed25519Bytes.SeedDetermines :=
    ⟨fun key => key.property, fun key => dif_pos key.property⟩
  have hchecks : Verifier.Checks := fun _ _ => by
    simp [Verifier.verify, Ed25519Bytes.verifyingKey, Ed25519.sign]
  have hinfo : (machine.exec (announcing.nixCacheInfoText (.project exampleSlug)) moment
      (generatingRun.world 9)).2 = .ok announcedText := eq_ok_of_toOption (by decide +kernel)
  have htext : (machine.exec (announcing.readService.renderNarinfo (.project exampleSlug) helloHash)
      moment (generatingRun.world 9)).2 = .ok (some signedText) :=
    eq_ok_of_toOption (by decide +kernel)
  exact announced_keys_vouch example_faithful hseed example_opens hchecks generatingRun 9 announcing
    rfl (fun key hk => (by cases hk)) (.project exampleSlug) (generatingRun.world 9)
    (fun _ _ => Relation.ReflTransGen.refl) hinfo htext

end Examples

end Announced
