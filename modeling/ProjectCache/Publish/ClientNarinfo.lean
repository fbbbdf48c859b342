import ProjectCache.Core.Base32
import ProjectCache.Core.Signing
import ProjectCache.Ingest.Service

namespace ClientNarinfo

open Textual Nix NixBase32 DepotPath Narinfo Validation Signing Ingest

structure PathInfo where
  path : Text
  narHash : NixHash
  narSize : UInt64
  references : List Text
  deriver : Option Text
  signatures : List Text
  ca : Option NixContentAddress
  deriving DecidableEq

section

variable [Base64]

def narinfoFromPathInfo (pathInfo : PathInfo) : Except NixHashError NarInfo := do
  let normalized ← pathInfo.narHash.normalize
  return {
    storePath := pathInfo.path
    url := "nar/".toList ++ normalized.digest ++ ".nar.zst".toList
    compression := "zstd".toList
    narHash := pathInfo.narHash
    narSize := pathInfo.narSize
    references := pathInfo.references
    deriver := pathInfo.deriver
    signatures := pathInfo.signatures
    ca := pathInfo.ca }

def payloadOfNarinfo (value : NarInfo) : NarInfoPayload where
  storePath := value.storePath
  url := value.url
  compression := value.compression
  narHash := value.narHash.renderText
  narSize := value.narSize
  references := value.references
  deriver := value.deriver
  signatures := value.signatures
  ca := value.ca.map NixContentAddress.formatForNarinfo

def DecodesEncoded : Prop :=
  ∀ digest bytes, Base64.decode digest = .ok bytes →
    ∀ c ∈ digest, Rfc4648.isEncodedCharacter c = true

inductive Spells (input : List UInt8) : NixHash → Prop
  | sri {digest : Text} : Base64.decode digest = .ok input →
      Spells input (.raw ("sha256-".toList ++ digest))
  | colon : Spells input (.raw ("sha256:".toList ++ encodeNixBase32 input))
  | base64 {digest : Text} : Base64.decode digest = .ok input →
      Spells input (.structured .sha256 (some .base64) digest)
  | unmarked {digest : Text} : Base64.decode digest = .ok input →
      Spells input (.structured .sha256 none digest)
  | nixBase32 : Spells input (.structured .sha256 (some .nixBase32) (encodeNixBase32 input))

def digestOf (input : List UInt8) : NormalizedNarHash where
  algorithm := .sha256
  digest := encodeNixBase32 input
  supported := HashAlgorithm.sha256_supported
  alphabet := fun _ hc => encodeNixBase32_mem hc

theorem fromBase64Digest_of_decode {digest : Text} {input : List UInt8}
    (hd : Base64.decode digest = .ok input) :
    NormalizedNarHash.fromBase64Digest .sha256 digest = .ok (digestOf input) := by
  simp only [NormalizedNarHash.fromBase64Digest, HashAlgorithm.supportsNixBase32Conversion,
    dif_pos, hd]
  rfl

theorem parseText_decoded (hb : DecodesEncoded) {digest : Text} {input : List UInt8}
    (hd : Base64.decode digest = .ok input) :
    NormalizedNarHash.parseText ("sha256-".toList ++ digest) = .ok (digestOf input) := by
  rw [NixBase32.parseText_hyphen fun hc => ?_, fromBase64Digest_of_decode hd]
  have hcolon := hb digest input hd _ hc
  revert hcolon
  decide

theorem parseText_digestOf {input : List UInt8} (hl : input.length = 32) :
    NormalizedNarHash.parseText ("sha256:".toList ++ encodeNixBase32 input) =
      .ok (digestOf input) := by
  have hlen : (digestOf input).digest.length = 52 := by
    rw [digestOf, length_encodeNixBase32, hl]
    rfl
  rw [← NormalizedNarHash.parseText_display hlen, NormalizedNarHash.display_eq]
  rfl

theorem new_digestOf {input : List UInt8} (hl : input.length = 32) :
    NormalizedNarHash.new .sha256 (encodeNixBase32 input) = .ok (digestOf input) := by
  rw [← parseText_digestOf hl]
  rfl

theorem Spells.normalize (hb : DecodesEncoded) {input : List UInt8} {x : NixHash}
    (hx : Spells input x) (hl : input.length = 32) :
    x.normalize = .ok (digestOf input) ∧
      NormalizedNarHash.parseText x.renderText = .ok (digestOf input) := by
  cases hx with
  | sri hd => exact ⟨parseText_decoded hb hd, parseText_decoded hb hd⟩
  | colon => exact ⟨parseText_digestOf hl, parseText_digestOf hl⟩
  | base64 hd => exact ⟨fromBase64Digest_of_decode hd, parseText_decoded hb hd⟩
  | unmarked hd => exact ⟨fromBase64Digest_of_decode hd, parseText_decoded hb hd⟩
  | nixBase32 => exact ⟨new_digestOf hl, parseText_digestOf hl⟩

omit [Base64] in
theorem parse_eq_sha256 {value : Text} :
    HashAlgorithm.parse value = .sha256 → value = "sha256".toList := by
  unfold HashAlgorithm.parse
  split
  · exact fun _ => by assumption
  · split <;> simp

theorem decode_of_fromBase64Digest {algorithm : HashAlgorithm} {digest : Text}
    {input : List UInt8} (hl : input.length = 32)
    (hn : NormalizedNarHash.fromBase64Digest algorithm digest = .ok (digestOf input)) :
    algorithm = .sha256 ∧ Base64.decode digest = .ok input := by
  unfold NormalizedNarHash.fromBase64Digest at hn
  split at hn
  · rename_i ha
    refine ⟨HashAlgorithm.eq_sha256_of_supports ha, ?_⟩
    split at hn
    · cases hn
    · rename_i bytes hbytes
      have he : encodeNixBase32 bytes = encodeNixBase32 input :=
        congrArg NormalizedNarHash.digest (Except.ok.inj hn)
      have hlength := congrArg List.length he
      simp only [length_encodeNixBase32, encodedLength, hl] at hlength
      rw [hbytes, encodeNixBase32_injective (by omega) he]
  · cases hn

omit [Base64] in
theorem digest_of_new {algorithm : HashAlgorithm} {digest : Text} {input : List UInt8}
    (hn : NormalizedNarHash.new algorithm digest = .ok (digestOf input)) :
    algorithm = .sha256 ∧ digest = encodeNixBase32 input := by
  unfold NormalizedNarHash.new at hn
  split at hn
  · cases hn
  · have he := Except.ok.inj hn
    exact ⟨congrArg NormalizedNarHash.algorithm he, congrArg NormalizedNarHash.digest he⟩

theorem spells_of_normalize {input : List UInt8} {x : NixHash} (hl : input.length = 32)
    (hn : x.normalize = .ok (digestOf input)) : Spells input x := by
  cases x with
  | raw text =>
    change NormalizedNarHash.parseText text = .ok (digestOf input) at hn
    unfold NormalizedNarHash.parseText parseHashText at hn
    cases hc : splitOnce ':' text with
    | some q =>
      simp only [hc] at hn
      obtain ⟨ha, hd⟩ := digest_of_new hn
      obtain ⟨rfl, -⟩ := splitOnce_eq_some.mp hc
      rw [parse_eq_sha256 ha, hd]
      exact .colon
    | none =>
      cases hh : splitOnce '-' text with
      | some q =>
        simp only [hc, hh] at hn
        obtain ⟨ha, hd⟩ := decode_of_fromBase64Digest hl hn
        obtain ⟨rfl, -⟩ := splitOnce_eq_some.mp hh
        rw [parse_eq_sha256 ha]
        exact .sri hd
      | none => simp [hc, hh] at hn
  | structured algorithm encoding digest =>
    match encoding with
    | none =>
      obtain ⟨rfl, hd⟩ := decode_of_fromBase64Digest hl hn
      exact .unmarked hd
    | some .base64 =>
      obtain ⟨rfl, hd⟩ := decode_of_fromBase64Digest hl hn
      exact .base64 hd
    | some .nixBase32 =>
      obtain ⟨rfl, rfl⟩ := digest_of_new hn
      exact .nixBase32
    | some (.other name) => cases hn

def clientNarinfo (pathInfo : PathInfo) (input : List UInt8) : NarInfo where
  storePath := pathInfo.path
  url := expectedUrl (digestOf input) .zstd
  compression := "zstd".toList
  narHash := pathInfo.narHash
  narSize := pathInfo.narSize
  references := pathInfo.references
  deriver := pathInfo.deriver
  signatures := pathInfo.signatures
  ca := pathInfo.ca

theorem narinfoFromPathInfo_eq_ok {pathInfo : PathInfo} {input : List UInt8}
    (hn : pathInfo.narHash.normalize = .ok (digestOf input)) :
    narinfoFromPathInfo pathInfo = .ok (clientNarinfo pathInfo input) := by
  rw [narinfoFromPathInfo, hn]
  rfl

def serverNarinfo (n : NarInfo) : NarInfo := (payloadOfNarinfo n).intoNarinfo

theorem serverNarinfo_ca (n : NarInfo) :
    (serverNarinfo n).caNarinfoString = n.caNarinfoString := by
  rw [NarInfo.caNarinfoString, serverNarinfo, NarInfoPayload.intoNarinfo, payloadOfNarinfo,
    Option.map_map, Option.map_map]
  rfl

theorem fingerprint_congr [Ed25519] (signer : NarInfoSigner) {m n : NarInfo}
    (hp : m.storePath = n.storePath) (hz : m.narSize = n.narSize)
    (hr : m.references = n.references) (hh : m.normalizedNarHash = n.normalizedNarHash) :
    signer.fingerprint m = signer.fingerprint n := by
  rw [NarInfoSigner.fingerprint, NarInfoSigner.fingerprint, hp, hr, hh]
  cases n.normalizedNarHash with
  | error e => rfl
  | ok narHash => simp only [NarInfoSigner.fingerprintText_congr narHash hp hz (hr ▸ .refl _)]

theorem client_server_agree [Ed25519] (hb : DecodesEncoded) {s : StoreDir} {pathInfo : PathInfo}
    {h : StorePathHash} {input : List UInt8} (hl : input.length = 32)
    (hx : Spells input pathInfo.narHash) (hin : s.containsPath pathInfo.path = true)
    (hh : StorePathHash.parseFromStorePath pathInfo.path = .ok h)
    (hr : ∀ r ∈ pathInfo.references, PathInside s r) (hd : ∀ d ∈ pathInfo.deriver, PathInside s d) :
    (∀ x : NixHash, x.normalize = .ok (digestOf input) → Spells input x) ∧
    ∃ n, narinfoFromPathInfo pathInfo = .ok n ∧
      validatePublishNarinfo s (serverNarinfo n) = .ok h ∧
      (∃ narHash, n.normalizedNarHash = .ok narHash ∧
        (serverNarinfo n).normalizedNarHash = .ok narHash) ∧
      (serverNarinfo n).caNarinfoString = n.caNarinfoString ∧
      ∀ signer : NarInfoSigner, signer.fingerprint (serverNarinfo n) = signer.fingerprint n := by
  obtain ⟨hclient, hserver⟩ := hx.normalize hb hl
  have hlen : (digestOf input).digest.length = 52 := by
    rw [digestOf, length_encodeNixBase32, hl]
    rfl
  refine ⟨fun x => spells_of_normalize hl, clientNarinfo pathInfo input,
    narinfoFromPathInfo_eq_ok hclient, ?_,
    ⟨digestOf input, hclient, hserver⟩, serverNarinfo_ca _, fun signer => ?_⟩
  · exact validatePublishNarinfo_eq_ok.mpr
      { inside := hin
        hash := hh
        compression := ⟨.zstd, rfl, digestOf input, hserver, hlen, rfl⟩
        references := hr
        deriver := hd }
  · exact fingerprint_congr signer rfl rfl rfl (hserver.trans hclient.symm)

end

section

attribute [local instance] standardBase64 keyless

theorem standardBase64_decodesEncoded : DecodesEncoded := by
  intro digest bytes h
  simp only [Base64.decode] at h
  split at h
  · rename_i hd
    exact Rfc4648.isEncodedCharacter_of_decode hd
  · cases h

def helloPathInfo : PathInfo where
  path := "/nix/store/26xbg1ndr7hbcncrlf9nhx5is2b25d13-hello-2.12.1".toList
  narHash :=
    .structured .sha256 (some .base64) "n4bQgYhMfWWaL+qgxVrQFaO/TxsrC4Is0V1sFbDwCgg=".toList
  narSize := 226560
  references := ["/nix/store/00000000000000000000000000000000-glibc-2.39".toList]
  deriver := none
  signatures := []
  ca := some (.structured .nar (.raw "sha256-n4bQgYhMfWWaL+qgxVrQFaO/TxsrC4Is0V1sFbDwCgg=".toList))

theorem hello_agrees : ∃ h, h.text = "26xbg1ndr7hbcncrlf9nhx5is2b25d13".toList ∧
    ∃ n, narinfoFromPathInfo helloPathInfo = .ok n ∧
      validatePublishNarinfo .defaultNix (serverNarinfo n) = .ok h := by
  obtain ⟨h, hh, ht⟩ : ∃ h, StorePathHash.parseFromStorePath helloPathInfo.path = .ok h ∧
      h.text = "26xbg1ndr7hbcncrlf9nhx5is2b25d13".toList := ⟨_, rfl, rfl⟩
  have hinside : PathInside .defaultNix
      "/nix/store/00000000000000000000000000000000-glibc-2.39".toList := ⟨by decide, _, rfl⟩
  have hspells : Spells testDigest helloPathInfo.narHash := .base64 (by decide +kernel)
  obtain ⟨-, n, hn, hv, -⟩ := client_server_agree standardBase64_decodesEncoded rfl hspells
    (by decide) hh (List.forall_mem_singleton.mpr hinside) (fun _ hd => by cases hd)
  exact ⟨h, ht, n, hn, hv⟩

end

end ClientNarinfo
