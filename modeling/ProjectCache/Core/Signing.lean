import ProjectCache.Core.NarInfo

namespace Signing

open Textual Nix Narinfo

class Ed25519 where
  SigningKey : Type
  sign : SigningKey → ByteArray → List UInt8

inductive FingerprintError where
  | invalidStorePath (storeDir path : Text)
  | invalidNarHash (source : NixHashError)
  | invalidReferencePath (storeDir path : Text)
  deriving DecidableEq, Repr

@[reducible] def keyless : Ed25519 where
  SigningKey := Empty
  sign := fun key => nomatch key

variable [Base64] [Ed25519]

structure NamedSigningKey where
  name : Text
  key : Ed25519.SigningKey

def NamedSigningKey.signMessage (k : NamedSigningKey) (message : ByteArray) : Text :=
  k.name ++ ':' :: Base64.encode (Ed25519.sign k.key message)

structure NarInfoSigner where
  storeDir : StoreDir
  keys : List NamedSigningKey

def fingerprintText (n : NarInfo) (narHash : NormalizedNarHash) : Text :=
  "1;".toList ++ n.storePath ++ ';' :: narHash.display ++ ';' :: decimal n.narSize.toNat ++
    ';' :: joinWith [','] n.sortedReferences

namespace NarInfoSigner

variable (signer : NarInfoSigner)

def fingerprint (n : NarInfo) : Except FingerprintError ByteArray :=
  if ¬ signer.storeDir.containsPath n.storePath then
    .error (.invalidStorePath signer.storeDir.path n.storePath)
  else
    match n.normalizedNarHash with
    | .error source => .error (.invalidNarHash source)
    | .ok narHash =>
      match n.references.find? (fun reference => ¬ signer.storeDir.containsPath reference) with
      | some path => .error (.invalidReferencePath signer.storeDir.path path)
      | none => .ok (String.ofList (fingerprintText n narHash)).toUTF8

theorem fingerprint_eq_ok {n : NarInfo} {message : ByteArray} :
    signer.fingerprint n = .ok message ↔
      signer.storeDir.containsPath n.storePath = true ∧
        (∀ r ∈ n.references, signer.storeDir.containsPath r = true) ∧
        ∃ narHash, n.normalizedNarHash = .ok narHash ∧
          message = (String.ofList (fingerprintText n narHash)).toUTF8 := by
  unfold fingerprint
  cases hc : signer.storeDir.containsPath n.storePath with
  | false => simp
  | true =>
    cases hn : n.normalizedNarHash with
    | error e => simp
    | ok narHash =>
      cases hr : n.references.find? (fun r => ¬ signer.storeDir.containsPath r) with
      | some r =>
        have hmem := List.mem_of_find?_eq_some hr
        have hout := List.find?_some hr
        simp only [decide_eq_true_eq] at hout
        simp only [not_true_eq_false, if_false, reduceCtorEq, true_and, false_iff, not_and]
        exact fun hall => absurd (hall r hmem) hout
      | none =>
        have hall : ∀ r ∈ n.references, signer.storeDir.containsPath r = true := by
          simpa using hr
        simp only [not_true_eq_false, if_false, Except.ok.injEq, exists_eq_left', true_and]
        exact ⟨fun h => ⟨hall, h.symm⟩, fun h => h.2.symm⟩

omit [Base64] [Ed25519] in
theorem fingerprintText_congr {a b : NarInfo} (narHash : NormalizedNarHash)
    (hp : a.storePath = b.storePath) (hz : a.narSize = b.narSize)
    (hr : a.references.Perm b.references) :
    fingerprintText a narHash = fingerprintText b narHash := by
  simp only [fingerprintText, hp, hz, NarInfo.sortedReferences, sortTexts_eq_of_perm hr]

def sign (n : NarInfo) : Except FingerprintError (List Text) := do
  let fingerprint ← signer.fingerprint n
  return signer.keys.map (fun key => key.signMessage fingerprint)

theorem sign_eq_ok {n : NarInfo} {signatures : List Text} :
    signer.sign n = .ok signatures ↔ ∃ message, signer.fingerprint n = .ok message ∧
      signatures = signer.keys.map (fun key => key.signMessage message) := by
  cases hf : signer.fingerprint n with
  | error e => simp [sign, hf, bind, Except.bind]
  | ok message => simp [sign, hf, bind, Except.bind, pure, Except.pure, eq_comm]

end NarInfoSigner

end Signing
