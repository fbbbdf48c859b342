import ProjectCache.Core.Signing

namespace Signing

open Textual Nix

inductive ParseSigningKeyError where
  | missingSeparator
  | emptyName
  | invalidBase64 (error : Text)
  | invalidKeyLength (length : Nat)
  | invalidKeypair (error : Text)
  deriving DecidableEq, Repr

inductive GenerateSigningKeyError where
  | emptyName
  | random
  deriving DecidableEq, Repr

class Ed25519Bytes [Ed25519] where
  fromBytes : List UInt8 → Ed25519.SigningKey
  fromKeypairBytes : List UInt8 → Except Text Ed25519.SigningKey
  toBytes : Ed25519.SigningKey → List UInt8
  verifyingKey : Ed25519.SigningKey → List UInt8

-- The engine STANDARD_NO_PAD; STANDARD is Base64.
class Base64NoPad where
  decode : Text → Except Text (List UInt8)

structure Ed25519Bytes.SeedDetermines [Ed25519] [Ed25519Bytes] : Prop where
  toBytes_length : ∀ key, (toBytes key).length = 32
  fromBytes_toBytes : ∀ key, fromBytes (toBytes key) = key

structure Base64.Faithful [Base64] [Base64NoPad] : Prop where
  printable : Base64.Printable
  decode_encode : ∀ bytes, Base64.decode (Base64.encode bytes) = .ok bytes
  decode_alphabet : ∀ text bytes, Base64.decode text = .ok bytes →
    ∀ c ∈ text, Rfc4648.isEncodedCharacter c = true
  decodeNoPad_alphabet : ∀ text bytes, Base64NoPad.decode text = .ok bytes →
    ∀ c ∈ text, Rfc4648.isEncodedCharacter c = true

theorem bind_eq_ok {E A B : Type} {x : Except E A} {f : A → Except E B} {b : B} :
    x >>= f = .ok b ↔ ∃ a, x = .ok a ∧ f a = .ok b := by
  cases x <;> simp [bind, Except.bind]

section

variable [Base64] [Base64NoPad]

def decodeBase64StandardOrRaw (input : Text) : Except ParseSigningKeyError (List UInt8) :=
  match Base64.decode input with
  | .ok bytes => .ok bytes
  | .error standardError =>
    match Base64NoPad.decode input with
    | .ok bytes => .ok bytes
    | .error rawError => .error (.invalidBase64
        (standardError ++ "; raw no-pad decode also failed: ".toList ++ rawError))

theorem decodeBase64StandardOrRaw_encode (f : Base64.Faithful) (bytes : List UInt8) :
    decodeBase64StandardOrRaw (Base64.encode bytes) = .ok bytes := by
  simp only [decodeBase64StandardOrRaw, f.decode_encode]

theorem decodeBase64StandardOrRaw_colon (f : Base64.Faithful) {input : Text} (h : ':' ∈ input)
    (bytes : List UInt8) : decodeBase64StandardOrRaw input ≠ .ok bytes := by
  have hcolon : Rfc4648.isEncodedCharacter ':' = false := by decide
  intro hd
  unfold decodeBase64StandardOrRaw at hd
  split at hd
  · rename_i hok
    simpa [hcolon] using f.decode_alphabet _ _ hok ':' h
  · split at hd
    · rename_i hok
      simpa [hcolon] using f.decodeNoPad_alphabet _ _ hok ':' h
    · cases hd

end

namespace NamedSigningKey

variable [Ed25519]

structure Trimmed (k : NamedSigningKey) : Prop where
  trim_name : trim k.name = k.name
  name_ne_nil : k.name ≠ []

def withName (k : NamedSigningKey) (name : Text) : Except ParseSigningKeyError NamedSigningKey :=
  if trim name = [] then .error .emptyName else .ok { k with name := trim name }

variable [Ed25519Bytes]

def keyOfBytes (bytes : List UInt8) : Except ParseSigningKeyError Ed25519.SigningKey :=
  if bytes.length = 32 then .ok (Ed25519Bytes.fromBytes bytes)
  else if bytes.length = 64 then
    match Ed25519Bytes.fromKeypairBytes bytes with
    | .ok key => .ok key
    | .error error => .error (.invalidKeypair error)
  else .error (.invalidKeyLength bytes.length)

variable [Base64]

def parse [Base64NoPad] (input : Text) : Except ParseSigningKeyError NamedSigningKey :=
  match splitOnce ':' input with
  | none => .error .missingSeparator
  | some (namePart, keyPart) =>
    if trim namePart = [] then .error .emptyName
    else do
      let keyBytes ← decodeBase64StandardOrRaw (trim keyPart)
      let key ← keyOfBytes keyBytes
      return ⟨trim namePart, key⟩

def publicKeyText (k : NamedSigningKey) : Text :=
  k.name ++ ':' :: Base64.encode (Ed25519Bytes.verifyingKey k.key)

def privateKeyText (k : NamedSigningKey) : Text :=
  k.name ++ ':' :: Base64.encode (Ed25519Bytes.toBytes k.key)

variable [Base64NoPad]

theorem parse_trimmed {input : Text} {k : NamedSigningKey} (h : parse input = .ok k) :
    k.Trimmed ∧ ':' ∉ k.name := by
  unfold parse at h
  split at h
  · cases h
  · rename_i namePart keyPart hs
    split at h
    · cases h
    · rename_i hne
      obtain ⟨keyBytes, -, h⟩ := bind_eq_ok.mp h
      obtain ⟨key, -, h⟩ := bind_eq_ok.mp h
      cases h
      exact ⟨⟨trim_trim _, hne⟩, fun hc => (splitOnce_eq_some.mp hs).2 (mem_of_mem_trim hc)⟩

omit [Ed25519Bytes] [Base64] [Base64NoPad] in
theorem withName_eq_ok {k l : NamedSigningKey} {name : Text} :
    k.withName name = .ok l ↔ trim name ≠ [] ∧ l = { k with name := trim name } := by
  unfold withName
  split
  · rename_i h
    exact ⟨fun he => (by cases he), fun hn => absurd h hn.1⟩
  · rename_i h
    rw [Except.ok.injEq]
    exact ⟨fun he => ⟨h, he.symm⟩, fun hl => hl.2.symm⟩

omit [Base64] [Base64NoPad] in
theorem keyOfBytes_toBytes (s : Ed25519Bytes.SeedDetermines) (key : Ed25519.SigningKey) :
    keyOfBytes (Ed25519Bytes.toBytes key) = .ok key := by
  simp only [keyOfBytes, s.toBytes_length, if_true, s.fromBytes_toBytes]

theorem parse_privateKeyText (f : Base64.Faithful) (s : Ed25519Bytes.SeedDetermines)
    {k : NamedSigningKey} (hk : k.Trimmed) (hc : ':' ∉ k.name) :
    parse k.privateKeyText = .ok k := by
  have hencoded : trim (Base64.encode (Ed25519Bytes.toBytes k.key)) =
      Base64.encode (Ed25519Bytes.toBytes k.key) :=
    trim_eq_self_of_forall (fun c hc => Rfc4648.not_whitespace (f.printable _ c hc))
  simp only [parse, privateKeyText, splitOnce_append hc, hk.trim_name, hk.name_ne_nil, if_false,
    hencoded, decodeBase64StandardOrRaw_encode f]
  exact bind_eq_ok.mpr ⟨_, rfl, bind_eq_ok.mpr ⟨_, keyOfBytes_toBytes s k.key, rfl⟩⟩

-- The text of a key is split at its first colon, so the rest of the name comes to the key part.
theorem parse_privateKeyText_colon (f : Base64.Faithful) {k : NamedSigningKey}
    (hc : ':' ∈ k.name) (l : NamedSigningKey) : parse k.privateKeyText ≠ .ok l := by
  obtain ⟨a, b, hab⟩ : ∃ a b, splitOnce ':' k.name = some (a, b) := by
    cases hs : splitOnce ':' k.name with
    | none => exact absurd hc (splitOnce_eq_none.mp hs)
    | some q => exact ⟨q.1, q.2, rfl⟩
  obtain ⟨hname, ha⟩ := splitOnce_eq_some.mp hab
  have hsplit : splitOnce ':' k.privateKeyText =
      some (a, b ++ ':' :: Base64.encode (Ed25519Bytes.toBytes k.key)) := by
    rw [privateKeyText, hname, List.append_assoc, List.cons_append]
    exact splitOnce_append ha _
  intro h
  simp only [parse, hsplit] at h
  split at h
  · cases h
  · obtain ⟨keyBytes, hd, -⟩ := bind_eq_ok.mp h
    exact decodeBase64StandardOrRaw_colon f (mem_trim (by simp) (by decide)) keyBytes hd

end NamedSigningKey

end Signing

namespace KeyCrypto

open Textual Nix Signing

inductive KeyEncryptionError where
  | invalidBase64 (error : Text)
  | invalidLength (length : Nat)
  | nonceGeneration
  | encrypt
  | decrypt
  deriving DecidableEq, Repr

class ChaCha20Poly1305 where
  encrypt : (key nonce : List UInt8) → (aad msg : ByteArray) → Option (List UInt8)
  decrypt : (key nonce : List UInt8) → (aad : ByteArray) → (msg : List UInt8) → Option ByteArray

def ChaCha20Poly1305.Opens [ChaCha20Poly1305] : Prop :=
  ∀ key nonce aad msg ciphertext, encrypt key nonce aad msg = some ciphertext →
    decrypt key nonce aad ciphertext = some msg

structure KeyEncryptionKey where
  bytes : List UInt8
  length_bytes : bytes.length = 32

structure EncryptedSigningKey where
  ciphertext : Text
  nonce : Text
  deriving DecidableEq

abbrev RandomBytes (length : Nat) := { bytes : List UInt8 // bytes.length = length }

def utf8 (text : Text) : ByteArray := (String.ofList text).toUTF8

theorem fromUTF8?_utf8 (text : Text) :
    (String.fromUTF8? (utf8 text)).map String.toList = some text := by
  have hvalid : (utf8 text).IsValidUTF8 := ⟨text, rfl⟩
  simp only [String.fromUTF8?, dif_pos hvalid, Option.map_some]
  exact congrArg some String.toList_ofList

namespace KeyEncryptionKey

variable [Base64]

def parseBase64 (input : Text) : Except KeyEncryptionError KeyEncryptionKey :=
  match Base64.decode (trim input) with
  | .error error => .error (.invalidBase64 error)
  | .ok bytes =>
    if h : bytes.length = 32 then .ok ⟨bytes, h⟩ else .error (.invalidLength bytes.length)

variable [ChaCha20Poly1305] (key : KeyEncryptionKey)

def encrypt (nonce : RandomBytes 12) (plaintext : Text) (aad : ByteArray) :
    Except KeyEncryptionError EncryptedSigningKey :=
  match ChaCha20Poly1305.encrypt key.bytes nonce.val aad (utf8 plaintext) with
  | none => .error .encrypt
  | some ciphertext => .ok ⟨Base64.encode ciphertext, Base64.encode nonce.val⟩

def decrypt (encrypted : EncryptedSigningKey) (aad : ByteArray) :
    Except KeyEncryptionError Text :=
  match Base64.decode encrypted.nonce with
  | .error error => .error (.invalidBase64 error)
  | .ok nonce =>
    if nonce.length ≠ 12 then .error .decrypt
    else
      match Base64.decode encrypted.ciphertext with
      | .error error => .error (.invalidBase64 error)
      | .ok ciphertext =>
        match ChaCha20Poly1305.decrypt key.bytes nonce aad ciphertext with
        | none => .error .decrypt
        | some plaintext =>
          match String.fromUTF8? plaintext with
          | none => .error .decrypt
          | some text => .ok text.toList

theorem decrypt_encrypt [Base64NoPad] (f : Base64.Faithful) (o : ChaCha20Poly1305.Opens)
    {nonce : RandomBytes 12} {plaintext : Text} {aad : ByteArray}
    {encrypted : EncryptedSigningKey} (h : key.encrypt nonce plaintext aad = .ok encrypted) :
    key.decrypt encrypted aad = .ok plaintext := by
  unfold encrypt at h
  split at h
  · cases h
  · rename_i ciphertext hc
    cases h
    obtain ⟨text, htext, rfl⟩ := Option.map_eq_some_iff.mp (fromUTF8?_utf8 plaintext)
    simp [decrypt, f.decode_encode, nonce.property, o _ _ _ _ _ hc, htext]

end KeyEncryptionKey

end KeyCrypto
