import ProjectCache.Access.TokenExpiry

namespace SigningKeys

open Textual Nix Project Calendar Tables Store Db Programs Signing KeyCrypto Depot SqliteDatabase

structure Stored (db : Database) (project : ProjectSlug) (psk : ProjectSigningKeyRow) : Prop where
  row : psk ∈ db.projectSigningKeys.rows
  active : psk.retiredAt = none
  project : ∃ p ∈ db.projects.rows, p.id = psk.projectId ∧ p.slug = project

def recordOf (project : ProjectSlug) (psk : ProjectSigningKeyRow) : ProjectSigningKeyRecord where
  projectSlug := project
  name := psk.name
  publicKey := psk.publicKey
  encryptedPrivateKey := psk.encryptedPrivateKey
  nonce := psk.nonce

def Unreplaced (project : ProjectSlug) : World → World → Prop :=
  Relation.ReflTransGen (fun a b => ∃ c e, b = (answer c e a).1 ∧
    ∀ row, c = .replaceSigningKey row →
      ∀ p ∈ a.db.projects.rows, p.slug = project → p.id ≠ row.projectId)

namespace Stored

variable {db : Database} {project : ProjectSlug} {psk : ProjectSigningKeyRow}

theorem activeSigningKey (h : Stored db project psk) :
    db.activeSigningKey project = some (recordOf project psk) := by
  obtain ⟨p, hp, hid, hs⟩ := h.project
  refine Option.map_eq_some_iff.mpr ⟨psk, ?_, rfl⟩
  rw [Table.find?_eq_some_iff]
  · refine ⟨h.row, ?_⟩
    simp only [h.active, Option.isNone_none, Bool.true_and, List.any_eq_true, Bool.and_eq_true,
      decide_eq_true_eq]
    exact ⟨p, hp, hid, hs⟩
  · intro a b ha hb
    have hown : ∀ x : ProjectSigningKeyRow, (x.retiredAt.isNone && db.projects.rows.any
        (fun q => q.id = x.projectId && q.slug = project)) = true →
        x.retiredAt.isNone = true ∧ x.projectId = p.id := by
      intro x hx
      simp only [Bool.and_eq_true, List.any_eq_true, decide_eq_true_eq] at hx
      obtain ⟨hret, q, hq, hqi, hqs⟩ := hx
      have hqp : q = p := Table.eq_of_clash hq hp (by simp [Keyed.clash, hqs, hs])
      exact ⟨hret, hqi ▸ hqp ▸ rfl⟩
    obtain ⟨har, hai⟩ := hown a ha
    obtain ⟨hbr, hbi⟩ := hown b hb
    simp [Keyed.clash, har, hbr, hai, hbi]

theorem of_activeSigningKey {record : ProjectSigningKeyRecord}
    (h : db.activeSigningKey project = some record) :
    ∃ psk, Stored db project psk ∧ recordOf project psk = record := by
  obtain ⟨psk, hfind, hrecord⟩ := Option.map_eq_some_iff.mp h
  have hp := List.find?_some hfind
  simp only [Bool.and_eq_true, Option.isNone_iff_eq_none, List.any_eq_true, decide_eq_true_eq] at hp
  obtain ⟨hactive, p, hpm, hid, hs⟩ := hp
  exact ⟨psk, ⟨List.mem_of_find?_eq_some hfind, hactive, p, hpm, hid, hs⟩, hrecord⟩

theorem carryOut {c : Call} {e : Env} {w : World} (h : Stored w.db project psk)
    (hc : ∀ row, c = .replaceSigningKey row →
      ∀ p ∈ w.db.projects.rows, p.slug = project → p.id ≠ row.projectId) :
    Stored (carryOut c e w).1.db project psk := by
  have hproject : ∃ p ∈ (Depot.carryOut c e w).1.db.projects.rows,
      p.id = psk.projectId ∧ p.slug = project := by
    obtain ⟨p, hp, hi, hs⟩ := h.project
    obtain ⟨q, hq, hqi, hqs⟩ := (carryOut_grows c e w).projects p hp
    exact ⟨q, hq, hqi.trans hi, hqs.trans hs⟩
  have hframe := carryOut_frame c e w
  cases c with
  | replaceSigningKey row =>
    obtain ⟨p, hp, hi, hs⟩ := h.project
    have hne : psk.projectId ≠ row.projectId := hi ▸ hc row rfl p hp hs
    simp only [Depot.carryOut]
    cases hr : w.db.replaceSigningKey row e.sqliteNow with
    | none => exact h
    | some db' =>
      obtain ⟨-, t, rfl, ht⟩ := replaceSigningKey_eq_some hr
      refine ⟨(Table.mem_of_insert ht).mpr (Or.inl ?_), h.active, h.project⟩
      exact List.mem_map.mpr ⟨psk, h.row, by simp [Database.retireKey, hne]⟩
  | _ => exact ⟨hframe.projectSigningKeys (by simp [Call.writes]) ▸ h.row, h.active, hproject⟩

theorem unreplaced {a b : World} (h : Stored a.db project psk) (hl : Unreplaced project a b) :
    Stored b.db project psk := by
  induction hl with
  | refl => exact h
  | tail _ hstep ih =>
    obtain ⟨c, e, rfl, hc⟩ := hstep
    rcases answer_state c e _ with hs | hs
    · rw [hs]
      exact ih
    · rw [hs]
      exact ih.carryOut hc

end Stored

section

variable [Base64] [Base64NoPad] [Ed25519] [Ed25519Bytes] [ChaCha20Poly1305]

inductive Replacement where
  | generate (name : Option Text)
  | imported (signingKey : Text) (name : Option Text)

namespace Replacement

def name : Replacement → Option Text
  | .generate name | .imported _ name => name

def program (project : ProjectSlug) (keyEncryptionKey : KeyEncryptionKey) :
    Replacement → Action Text
  | .generate name => generateProjectSigningKey project name keyEncryptionKey
  | .imported signingKey name => importSigningKeyText project signingKey name keyEncryptionKey

end Replacement

structure StoredFor (project : ProjectSlug) (kek : KeyEncryptionKey) (key : NamedSigningKey)
    (db : Database) (psk : ProjectSigningKeyRow) : Prop where
  stored : Stored db project psk
  name : psk.name = key.name
  decrypts : kek.decrypt ⟨psk.encryptedPrivateKey, psk.nonce⟩
    (projectSigningKeyAad project psk.name) = .ok key.privateKeyText

variable {project : ProjectSlug} {kek : KeyEncryptionKey} {w : World}

theorem replaceProjectSigningKey_spec (f : Base64.Faithful) (o : ChaCha20Poly1305.Opens)
    (key : NamedSigningKey) :
    machine.wp (fun _ => True) (fun r v => ∀ publicKey, r = .ok publicKey →
      publicKey = key.publicKeyText ∧ ∃ psk, StoredFor project kek key v.db psk)
      (replaceProjectSigningKey project key kek) w := by
  simp only [replaceProjectSigningKey, encryptSigningKey, projectIdBySlug, Prog.bind_eq,
    Prog.pure_eq, Machine.wp_bind]
  refine wp_select ?_ (by simp)
  refine wp_orFail (fun projectId hid => ?_) (by simp)
  refine wp_uuid (fun idEnv _ => ?_)
  refine Machine.wp_mapError (wp_fill (fun nonce => ?_) (by simp [Except.mapError]))
  refine wp_ofExcept (fun encrypted he => ?_) (by simp)
  refine wp_perform_of (fun e _ r hr => ?_) (by simp)
  rintro publicKey ⟨⟩
  obtain ⟨db', hdb, hw⟩ := World.written_ok hr
  obtain ⟨-, t, hdb', ht⟩ := replaceSigningKey_eq_some hdb
  obtain ⟨p, hp, hpi⟩ := Option.map_eq_some_iff.mp hid
  obtain ⟨hpm, hps⟩ := Database.projectBySlug_eq_some.mp hp
  have hcarry : (Depot.carryOut (.replaceSigningKey ⟨idEnv.uuid, projectId, key.name,
      key.publicKeyText, encrypted.ciphertext, encrypted.nonce, none⟩) e w).1.db = db' :=
    congrArg World.db hw
  rw [hcarry, hdb']
  refine ⟨rfl, _, ⟨(Table.mem_of_insert ht).mpr (Or.inr rfl), rfl, p, hpm, hpi, hps⟩, rfl, ?_⟩
  exact kek.decrypt_encrypt f o he

theorem replaceProjectSigningKey_stores (f : Base64.Faithful) (o : ChaCha20Poly1305.Opens)
    {q : Prop} {key : NamedSigningKey} (hk : key.Trimmed) (hq : ':' ∈ key.name ↔ q) :
    machine.wp (fun _ => True) (fun r v => ∀ publicKey, r = .ok publicKey →
      ∃ key psk, key.Trimmed ∧ (':' ∈ key.name ↔ q) ∧ publicKey = key.publicKeyText ∧
        StoredFor project kek key v.db psk) (replaceProjectSigningKey project key kek) w := by
  refine Machine.wp_mono (replaceProjectSigningKey_spec f o key) (fun r v h publicKey hr => ?_)
  obtain ⟨hp, psk, hs⟩ := h publicKey hr
  exact ⟨key, psk, hk, hq, hp, hs⟩

theorem generate_stores (f : Base64.Faithful) (o : ChaCha20Poly1305.Opens) {q : Prop}
    {given : Text} (hq : ':' ∈ given ↔ q) :
    machine.wp (fun _ => True) (fun r v => ∀ publicKey, r = .ok publicKey →
      ∃ key psk, key.Trimmed ∧ (':' ∈ key.name ↔ q) ∧ publicKey = key.publicKeyText ∧
        StoredFor project kek key v.db psk)
      ((generateNamedSigningKey given).bind (fun key => replaceProjectSigningKey project key kek))
      w := by
  refine Machine.wp_bind.mpr ?_
  unfold generateNamedSigningKey
  split
  · simp [Depot.fail]
  · rename_i hne
    refine Machine.wp_bind.mpr (Machine.wp_mapError (wp_fill (fun seed => ?_)
      (by simp [Except.mapError])))
    refine replaceProjectSigningKey_stores f o ⟨trim_trim given, hne⟩ ?_
    exact Iff.trans ⟨mem_of_mem_trim, fun hc => mem_trim hc (by decide)⟩ hq

omit [Base64] [Base64NoPad] [Ed25519] [Ed25519Bytes] [ChaCha20Poly1305] in
theorem slug_no_colon (project : ProjectSlug) (n : Nat) :
    ':' ∉ project.text ++ '-' :: decimal n := by
  have hvalid := (Bool.and_eq_true_iff.mp project.valid).2
  simp only [List.mem_append, List.mem_cons, not_or]
  refine ⟨fun hc => ?_, by decide, fun hc => ?_⟩
  · exact absurd (List.all_eq_true.mp hvalid ':' hc) (by decide)
  · exact absurd (Nat.isDigit_of_mem_toDigits (by decide) (by decide) hc) (by decide)

omit [Base64] [Base64NoPad] [Ed25519] [Ed25519Bytes] [ChaCha20Poly1305] in
theorem nextProjectSigningKeyName_no_colon (project : ProjectSlug) :
    machine.wp (fun _ => True) (fun r _ => ∀ name, r = .ok name → ':' ∉ name)
      (nextProjectSigningKeyName project) w := by
  simp only [nextProjectSigningKeyName, projectIdBySlug, Prog.bind_eq, Prog.pure_eq,
    Machine.wp_bind]
  refine wp_select ?_ (by simp)
  refine wp_orFail (fun projectId _ => wp_select ?_ (by simp)) (by simp)
  rintro name ⟨⟩
  exact slug_no_colon project _

theorem replacement_stores (f : Base64.Faithful) (o : ChaCha20Poly1305.Opens) (q : Replacement) :
    machine.wp (fun _ => True) (fun r v => ∀ publicKey, r = .ok publicKey →
      ∃ key psk, key.Trimmed ∧ (':' ∈ key.name ↔ ∃ name ∈ q.name, ':' ∈ name) ∧
        publicKey = key.publicKeyText ∧ StoredFor project kek key v.db psk)
      (q.program project kek) w := by
  cases q with
  | generate name =>
    simp only [Replacement.program, generateProjectSigningKey, Prog.bind_eq, Replacement.name]
    cases hn : name.filter (fun name => trim name ≠ []) with
    | some given =>
      obtain ⟨rfl, hne⟩ := Option.filter_eq_some_iff.mp hn
      refine generate_stores f o ?_
      simp only [Option.mem_some_iff, exists_eq_left']
      exact ⟨mem_of_mem_trim, fun hc => mem_trim hc (by decide)⟩
    | none =>
      have hblank : ¬ ∃ name' ∈ name, ':' ∈ name' := by
        rintro ⟨given, rfl, hc⟩
        have htrim : trim given = [] := by simpa using hn
        simpa [htrim] using mem_trim hc (by decide)
      refine Machine.wp_bind.mpr (Machine.wp_mono (nextProjectSigningKeyName_no_colon project)
        (fun r v h => ?_))
      cases r with
      | error x => simp
      | ok given => exact generate_stores f o (iff_of_false (h given rfl) hblank)
  | imported signingKey name =>
    simp only [Replacement.program, importSigningKeyText, Prog.bind_eq, Replacement.name]
    refine Machine.wp_bind.mpr (wp_ofExcept (fun key hkey => ?_) (by simp))
    obtain ⟨htrimmed, hcolon⟩ := NamedSigningKey.parse_trimmed hkey
    cases name with
    | none =>
      exact replaceProjectSigningKey_stores f o htrimmed (iff_of_false hcolon (by simp))
    | some name =>
      refine Machine.wp_bind.mpr (wp_ofExcept (fun renamed hr => ?_) (by simp))
      obtain ⟨hne, rfl⟩ := NamedSigningKey.withName_eq_ok.mp hr
      refine replaceProjectSigningKey_stores f o ⟨trim_trim name, hne⟩ ?_
      simp only [Option.mem_some_iff, exists_eq_left']
      exact ⟨mem_of_mem_trim, fun hc => mem_trim hc (by decide)⟩

def reparsed (key : NamedSigningKey) : Except Error (Option NamedSigningKey) :=
  match NamedSigningKey.parse key.privateKeyText with
  | .ok k => .ok (some k)
  | .error error => .error (.parseSigningKey error)

omit [ChaCha20Poly1305] in
theorem reparsed_colon (f : Base64.Faithful) {key k : NamedSigningKey} (hc : ':' ∈ key.name) :
    reparsed key ≠ .ok (some k) := by
  intro h
  unfold reparsed at h
  split at h
  · rename_i l hl
    exact NamedSigningKey.parse_privateKeyText_colon f hc l hl
  · cases h

theorem activeProjectSigningKey_spec {key : NamedSigningKey} {psk : ProjectSigningKeyRow}
    (h : StoredFor project kek key w.db psk) :
    machine.wp (fun e => e.outcome = .answered) (fun r _ => r = reparsed key)
      (activeProjectSigningKey project kek) w := by
  refine Machine.wp_bind.mpr (wp_select ?_ (fun e he hne => absurd he hne))
  rw [h.stored.activeSigningKey]
  refine Machine.wp_bind.mpr (wp_ofExcept (fun text ht => ?_) (fun x hx => ?_))
  · cases h.decrypts.symm.trans ht
    refine Machine.wp_bind.mpr (wp_ofExcept (fun k hk => ?_) (fun x hx => ?_))
    · simp [reparsed, hk]
    · simp [reparsed, hx]
  · cases h.decrypts.symm.trans hx

def Usable (project : ProjectSlug) (kek : KeyEncryptionKey) (publicKey : Text) (later : Nat → Env)
    (w : World) : Prop :=
  ∃ k record, (machine.exec (activeProjectSigningKey project kek) later w).2 = .ok (some k) ∧
    w.db.activeSigningKey project = some record ∧ k.publicKeyText = publicKey ∧ k.name = record.name

theorem stored_key_usable_iff (f : Base64.Faithful) (s : Ed25519Bytes.SeedDetermines)
    (o : ChaCha20Poly1305.Opens) (project : ProjectSlug) (kek : KeyEncryptionKey)
    (q : Replacement) (es later : Nat → Env) (v w : World) (publicKey : Text)
    (hr : (machine.exec (q.program project kek) es v).2 = .ok publicKey)
    (hl : Unreplaced project (machine.exec (q.program project kek) es v).1 w)
    (ha : ∀ n, (later n).outcome = .answered) :
    Usable project kek publicKey later w ↔ ∀ name ∈ q.name, ':' ∉ name := by
  obtain ⟨key, psk, hk, hc, rfl, hs⟩ :=
    Machine.exec_of_wp (replacement_stores f o q) (fun _ => trivial) publicKey hr
  have hw : StoredFor project kek key w.db psk := { hs with stored := hs.stored.unreplaced hl }
  have hexec := Machine.exec_of_wp (activeProjectSigningKey_spec hw) ha
  by_cases hcolon : ':' ∈ key.name
  · refine iff_of_false ?_ (fun hall => ?_)
    · rintro ⟨k, record, hu, -⟩
      exact reparsed_colon f hcolon (hexec.symm.trans hu)
    · obtain ⟨name, hn, hin⟩ := hc.mp hcolon
      exact hall name hn hin
  · refine iff_of_true ⟨key, _, ?_, hw.stored.activeSigningKey, rfl, hw.name.symm⟩ ?_
    · rw [hexec, reparsed, NamedSigningKey.parse_privateKeyText f s hk hcolon]
    · exact fun name hn hin => hcolon (hc.mpr ⟨name, hn, hin⟩)

end

section Examples

open TokenExpiry

@[reducible] def standardNoPad : Base64NoPad where
  decode := fun text =>
    if '=' ∈ text then .error "Invalid symbol".toList
    else
      match Rfc4648.decode (text ++ List.replicate ((4 - text.length % 4) % 4) '=') with
      | some bytes => .ok bytes
      | none => .error "Invalid length".toList

@[reducible] def exampleEd25519 : Ed25519 where
  SigningKey := RandomBytes 32
  sign := fun _ _ => []

attribute [local instance] standardBase64 standardNoPad exampleEd25519

attribute [local instance (2000)] ByteArray.instDecidableEq

def zeroSeed : RandomBytes 32 := ⟨List.replicate 32 0, List.length_replicate⟩

@[reducible] def exampleEd25519Bytes : Ed25519Bytes where
  fromBytes := fun bytes => if h : bytes.length = 32 then ⟨bytes, h⟩ else zeroSeed
  fromKeypairBytes := fun _ => .error []
  toBytes := fun key => key.val
  verifyingKey := fun _ => [59, 106, 39, 188, 206, 182, 164, 45, 98, 163, 168, 208, 42, 111, 13,
    115, 101, 50, 21, 119, 29, 226, 67, 166, 58, 192, 72, 161, 139, 89, 218, 41]

attribute [local instance] exampleEd25519Bytes

theorem example_faithful : Base64.Faithful := by
  refine ⟨standardBase64_printable, fun bytes => ?_, fun text bytes h => ?_, fun text bytes h => ?_⟩
  · simp [Base64.decode, Base64.encode, Rfc4648.decode_encode]
  · simp only [Base64.decode] at h
    split at h
    · rename_i hd
      exact Rfc4648.isEncodedCharacter_of_decode hd
    · cases h
  · simp only [Base64NoPad.decode] at h
    split at h
    · cases h
    · split at h
      · rename_i hd
        exact fun c hc => Rfc4648.isEncodedCharacter_of_decode hd c (List.mem_append_left _ hc)
      · cases h

theorem example_seedDetermines : Ed25519Bytes.SeedDetermines :=
  ⟨fun key => key.property, fun key => dif_pos key.property⟩

structure Seal where
  name : Text
  ciphertext : List UInt8

def Seal.aad (s : Seal) : ByteArray := projectSigningKeyAad exampleProject s.name

def Seal.msg (s : Seal) : ByteArray := utf8 (s.name ++ ':' :: Rfc4648.encode zeroSeed.val)

def seals : List Seal :=
  [⟨"ci".toList, [252, 110, 221, 255, 20, 16, 121, 59, 217, 251, 214, 61, 50, 108, 73, 76, 138, 78,
      104, 225, 9, 162, 36, 40, 83, 135, 18, 127, 115, 175, 59, 172, 104, 246, 96, 55, 221, 167, 15,
      2, 148, 48, 114, 241, 53, 153, 4, 207, 49, 85, 145, 132, 98, 159, 11, 167, 118, 175, 159, 65,
      204, 69, 245]⟩,
    ⟨"ci:main".toList, [252, 110, 221, 211, 52, 56, 86, 64, 217, 251, 214, 61, 50, 108, 73, 76, 138,
      78, 104, 225, 9, 162, 36, 40, 83, 135, 18, 127, 115, 175, 59, 172, 104, 246, 96, 55, 221, 167,
      15, 2, 148, 48, 114, 241, 53, 153, 120, 148, 112, 172, 94, 21, 152, 178, 42, 185, 69, 74, 176,
      240, 6, 86, 232, 83, 89, 125, 223, 99]⟩]

@[reducible] def exampleCipher : ChaCha20Poly1305 where
  encrypt := fun key nonce aad msg =>
    if key = zeroSeed.val ∧ nonce = List.replicate 12 0 then
      (seals.find? (fun s => s.aad = aad && s.msg = msg)).map Seal.ciphertext
    else none
  decrypt := fun key nonce aad ciphertext =>
    if key = zeroSeed.val ∧ nonce = List.replicate 12 0 then
      (seals.find? (fun s => s.aad = aad && s.ciphertext = ciphertext)).map Seal.msg
    else none

attribute [local instance] exampleCipher

theorem example_opens : ChaCha20Poly1305.Opens := by
  have hone : ∀ s ∈ seals, ∀ t ∈ seals, s.ciphertext = t.ciphertext → s.name = t.name := by
    decide +kernel
  intro key nonce aad msg ciphertext h
  simp only [ChaCha20Poly1305.encrypt, ChaCha20Poly1305.decrypt] at h ⊢
  split at h
  · rename_i hkey
    rw [if_pos hkey]
    obtain ⟨s, hs, rfl⟩ := Option.map_eq_some_iff.mp h
    have hm := List.mem_of_find?_eq_some hs
    have hp := List.find?_some hs
    simp only [Bool.and_eq_true, decide_eq_true_eq] at hp
    obtain ⟨rfl, rfl⟩ := hp
    cases ht : seals.find? (fun t => t.aad = s.aad && t.ciphertext = s.ciphertext) with
    | none => exact absurd (List.find?_eq_none.mp ht s hm) (by simp)
    | some t =>
      have htp := List.find?_some ht
      simp only [Bool.and_eq_true, decide_eq_true_eq] at htp
      have hname := hone t (List.mem_of_find?_eq_some ht) s hm htp.2
      simp [Seal.msg, hname]
  · cases h

def exampleKek : KeyEncryptionKey := ⟨zeroSeed.val, zeroSeed.property⟩

def ciKey : Text := "ci:O2onvM62pC1io6jQKm8Nc2UyFXcd4kOmOsBIoYtZ2ik=".toList

def ciMainKey : Text := "ci:main:O2onvM62pC1io6jQKm8Nc2UyFXcd4kOmOsBIoYtZ2ik=".toList

def generated (name : Text) : World × Except Error Text :=
  machine.exec (Replacement.program exampleProject exampleKek (.generate (some name)))
    (fun _ => exampleCreation) exampleWorld

theorem generated_ok : (generated "ci".toList).2 = .ok ciKey ∧
    (generated "ci:main".toList).2 = .ok ciMainKey := by decide +kernel

theorem example_usable_iff :
    Usable exampleProject exampleKek ciKey (fun _ => exampleLater) (generated "ci".toList).1 ↔
      ∀ name ∈ (Replacement.generate (some "ci".toList)).name, ':' ∉ name :=
  stored_key_usable_iff example_faithful example_seedDetermines example_opens exampleProject
    exampleKek (.generate (some "ci".toList)) _ _ exampleWorld _ ciKey generated_ok.1
    Relation.ReflTransGen.refl (fun _ => rfl)

theorem generated_unusable : (generated "ci:main".toList).2 = .ok ciMainKey ∧
    ∀ k, (machine.exec (activeProjectSigningKey exampleProject exampleKek) (fun _ => exampleLater)
      (generated "ci:main".toList).1).2 ≠ .ok (some k) := by
  refine ⟨generated_ok.2, fun k hk => ?_⟩
  obtain ⟨key, psk, -, hc, -, hs⟩ := Machine.exec_of_wp (replacement_stores example_faithful
    example_opens (.generate (some "ci:main".toList))) (fun _ => trivial) ciMainKey generated_ok.2
  have hquiet : ∀ n, ((fun _ => exampleLater : Nat → Env) n).outcome = .answered := fun _ => rfl
  have hexec := Machine.exec_of_wp (activeProjectSigningKey_spec hs) hquiet
  exact reparsed_colon example_faithful (hc.mpr ⟨_, rfl, by decide⟩) (hexec.symm.trans hk)

end Examples

end SigningKeys
