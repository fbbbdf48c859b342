import ProjectCache.Core.RoundTrip

namespace Fingerprint

open Textual Nix DepotPath Narinfo Validation Signing

def commaPieces (rs : List Text) : List Text := rs.flatMap (·.splitOn ',')

def signedPart (narHash : NormalizedNarHash) (narSize : UInt64) (rest : Text) : Text :=
  narHash.display ++ ';' :: (decimal narSize.toNat ++ ';' :: rest)

def joined (n : NarInfo) : Text := joinWith [','] n.sortedReferences

theorem fingerprintText_eq (n : NarInfo) (narHash : NormalizedNarHash) :
    fingerprintText n narHash =
      "1;".toList ++ (n.storePath ++ ';' :: signedPart narHash n.narSize (joined n)) := by
  simp [fingerprintText, signedPart, joined]

theorem separator_not_mem_display (narHash : NormalizedNarHash) : ';' ∉ narHash.display := by
  have hb : ';' ∉ nixBase32Alphabet := by decide
  have hp : ';' ∉ "sha256:".toList := by decide
  rw [NormalizedNarHash.display_eq, List.mem_append, not_or]
  exact ⟨hp, fun h => hb (narHash.alphabet _ h)⟩

theorem separator_not_mem_decimal (k : Nat) : ';' ∉ decimal k := by
  intro h
  have : Char.isDigit ';' = true := Nat.isDigit_of_mem_toDigits (by decide) (by decide) h
  exact absurd this (by decide)

theorem decimal_injective {a b : UInt64} (h : decimal a.toNat = decimal b.toNat) : a = b := by
  have := parseU64_decimal a
  rw [h, parseU64_decimal] at this
  exact (Option.some.inj this).symm

theorem display_head (narHash : NormalizedNarHash) (rest : Text) :
    (narHash.display ++ rest).head? = some 's' := by
  rw [NormalizedNarHash.display_eq]
  rfl

theorem decimal_head (k : Nat) (rest : Text) : (decimal k ++ rest).head? ≠ some 's' := by
  obtain ⟨c, t, ht⟩ := List.exists_cons_of_ne_nil (Nat.toDigits_ne_nil (b := 10) (n := k))
  have hc : c.isDigit = true :=
    Nat.isDigit_of_mem_toDigits (b := 10) (n := k) (by decide) (by decide) (by simp [ht])
  rw [decimal, ht]
  simp only [List.cons_append, List.head?_cons, ne_eq, Option.some.injEq]
  rintro rfl
  exact absurd hc (by decide)

theorem signedPart_inj {aHash bHash : NormalizedNarHash} {i j : UInt64} {x y : Text}
    (h : signedPart aHash i x = signedPart bHash j y) : aHash = bHash ∧ i = j ∧ x = y := by
  obtain ⟨hd, hr⟩ := append_separator_eq (separator_not_mem_display _)
    (separator_not_mem_display _) h
  obtain ⟨hn, hx⟩ := append_separator_eq (separator_not_mem_decimal _)
    (separator_not_mem_decimal _) hr
  exact ⟨NormalizedNarHash.display_injective hd, decimal_injective hn, hx⟩

theorem reference_head {s : StoreDir} {path : Text} (h : PathInside s path) :
    path.head? = some '/' := by
  have hs := s.absolute
  rcases s.containsPath_iff.mp h.1 with rfl | ⟨rest, rfl⟩
  · exact hs
  · rw [List.head?_append, hs]
    rfl

theorem perm_iff_sortedReferences {a b : NarInfo} :
    a.references.Perm b.references ↔ a.sortedReferences = b.sortedReferences :=
  ⟨sortTexts_eq_of_perm, fun h => (sortTexts_perm _).symm.trans
    ((List.Perm.of_eq h).trans (sortTexts_perm _))⟩

section Codec

variable [Base64]

structure SameSigned (a b : NarInfo) : Prop where
  storePath : a.storePath = b.storePath
  narHash : a.normalizedNarHash = b.normalizedNarHash
  narSize : a.narSize = b.narSize
  references : a.references.Perm b.references

structure CommaConfusion (a b : NarInfo) : Prop where
  storePath : a.storePath = b.storePath
  narHash : a.normalizedNarHash = b.normalizedNarHash
  narSize : a.narSize = b.narSize
  pieces : commaPieces a.sortedReferences = commaPieces b.sortedReferences
  references : ¬ a.references.Perm b.references

def Swallows (a b : NarInfo) : Prop :=
  ∃ aHash bHash front, a.normalizedNarHash = .ok aHash ∧ b.normalizedNarHash = .ok bHash ∧
    b.storePath = a.storePath ++ ';' :: signedPart aHash a.narSize front ∧
    joined a = front ++ ';' :: signedPart bHash b.narSize (joined b)

theorem swallows_of_longer {a b : NarInfo} {aHash bHash : NormalizedNarHash} {t : Text}
    (ha : a.normalizedNarHash = .ok aHash) (hb : b.normalizedNarHash = .ok bHash)
    (hj : (joined a).head? ≠ some 's') (hp : b.storePath = a.storePath ++ ';' :: t)
    (h : t ++ ';' :: signedPart bHash b.narSize (joined b) =
      signedPart aHash a.narSize (joined a)) : Swallows a b := by
  rcases append_separator (separator_not_mem_display aHash) h with ⟨rfl, hr⟩ | ⟨w, rfl, hr⟩
  · refine absurd ?_ (decimal_head a.narSize.toNat (';' :: joined a))
    rw [← hr]
    exact display_head _ _
  · rcases append_separator (separator_not_mem_decimal _) hr.symm with ⟨-, hx⟩ | ⟨v, rfl, hx⟩
    · refine absurd ?_ hj
      rw [← hx]
      exact display_head _ _
    · exact ⟨aHash, bHash, v, ha, hb, hp, hx⟩

theorem joined_head {s : StoreDir} {n : NarInfo} {h : StorePathHash} (ha : Accepted s n h) :
    (joined n).head? ≠ some 's' := by
  have hall : ∀ r ∈ n.sortedReferences, r.head? = some '/' := fun r hr =>
    reference_head (ha.references r ((sortTexts_perm n.references).subset hr))
  unfold joined
  match n.sortedReferences, hall with
  | [], _ => simp [joinWith]
  | [r], hall => simp [joinWith, hall r (by simp)]
  | r :: t :: ts, hall => simp [joinWith, List.head?_append, hall r (by simp)]

theorem references_ne_nil {s : StoreDir} {n : NarInfo} {h : StorePathHash}
    (ha : Accepted s n h) : ∀ r ∈ n.sortedReferences, r ≠ [] := by
  rintro r hr rfl
  have := reference_head (ha.references [] ((sortTexts_perm n.references).subset hr))
  simp at this

theorem sameSigned_of_text {s : StoreDir} {a b : NarInfo} {ha hb : StorePathHash}
    (haa : Accepted s a ha) (hab : Accepted s b hb) {aHash bHash : NormalizedNarHash}
    (hna : a.normalizedNarHash = .ok aHash) (hnb : b.normalizedNarHash = .ok bHash)
    (h : fingerprintText a aHash = fingerprintText b bHash) (hc : ¬ CommaConfusion a b)
    (hab' : ¬ Swallows a b) (hba : ¬ Swallows b a) : SameSigned a b := by
  rw [fingerprintText_eq, fingerprintText_eq, List.append_cancel_left_eq] at h
  rcases List.append_eq_append_iff.mp h with ⟨t, hp, ht⟩ | ⟨t, hp, ht⟩
  · cases t with
    | nil =>
      rw [List.append_nil] at hp
      obtain ⟨hh, hz, hj⟩ := signedPart_inj (List.cons.inj ht).2
      subst hh
      have hpieces := (joinWith_eq_iff (references_ne_nil haa) (references_ne_nil hab)).mp hj
      refine ⟨hp.symm, hna.trans hnb.symm, hz, ?_⟩
      by_contra hr
      exact hc ⟨hp.symm, hna.trans hnb.symm, hz, hpieces, hr⟩
    | cons d t =>
      rw [List.cons_append, List.cons.injEq] at ht
      obtain ⟨rfl, ht⟩ := ht
      exact absurd (swallows_of_longer hna hnb (joined_head haa) hp ht.symm) hab'
  · cases t with
    | nil =>
      rw [List.append_nil] at hp
      obtain ⟨hh, hz, hj⟩ := signedPart_inj (List.cons.inj ht).2
      subst hh
      have hpieces := (joinWith_eq_iff (references_ne_nil haa) (references_ne_nil hab)).mp hj.symm
      refine ⟨hp, hna.trans hnb.symm, hz.symm, ?_⟩
      by_contra hr
      exact hc ⟨hp, hna.trans hnb.symm, hz.symm, hpieces, hr⟩
    | cons d t =>
      rw [List.cons_append, List.cons.injEq] at ht
      obtain ⟨rfl, ht⟩ := ht
      exact absurd (swallows_of_longer hnb hna (joined_head hab) hp ht.symm) hba

theorem text_of_commaConfusion {s : StoreDir} {a b : NarInfo} {ha hb : StorePathHash}
    (haa : Accepted s a ha) (hab : Accepted s b hb) {aHash bHash : NormalizedNarHash}
    (hna : a.normalizedNarHash = .ok aHash) (hnb : b.normalizedNarHash = .ok bHash)
    (h : CommaConfusion a b) : fingerprintText a aHash = fingerprintText b bHash := by
  have hj : joined a = joined b :=
    (joinWith_eq_iff (references_ne_nil haa) (references_ne_nil hab)).mpr h.pieces
  have hh : aHash = bHash := Except.ok.inj (hna.symm.trans (h.narHash.trans hnb))
  rw [fingerprintText_eq, fingerprintText_eq, h.storePath, h.narSize, hj, hh]

theorem text_of_swallows {a b : NarInfo} {aHash bHash : NormalizedNarHash}
    (hna : a.normalizedNarHash = .ok aHash) (hnb : b.normalizedNarHash = .ok bHash)
    (h : Swallows a b) : fingerprintText a aHash = fingerprintText b bHash := by
  obtain ⟨aHash', bHash', front, ha, hb, hp, hj⟩ := h
  cases Except.ok.inj (ha.symm.trans hna)
  cases Except.ok.inj (hb.symm.trans hnb)
  rw [fingerprintText_eq, fingerprintText_eq, hp, signedPart, hj]
  simp [signedPart]

theorem Swallows.storePath_ne {a b : NarInfo} (h : Swallows a b) : a.storePath ≠ b.storePath := by
  obtain ⟨aHash, bHash, front, -, -, hp, -⟩ := h
  intro he
  have := congrArg List.length (he.trans hp)
  simp at this

section Signer

variable [Ed25519] {signer : NarInfoSigner}

theorem fingerprint_eq_iff_text {a b : NarInfo} {ha hb : StorePathHash}
    (haa : Accepted signer.storeDir a ha) (hab : Accepted signer.storeDir b hb)
    {aHash bHash : NormalizedNarHash} (hna : a.normalizedNarHash = .ok aHash)
    (hnb : b.normalizedNarHash = .ok bHash) :
    signer.fingerprint a = signer.fingerprint b ↔
      fingerprintText a aHash = fingerprintText b bHash := by
  have hfa := signer.fingerprint_eq_ok.mpr
    ⟨haa.inside, fun r hr => (haa.references r hr).1, aHash, hna, rfl⟩
  have hfb := signer.fingerprint_eq_ok.mpr
    ⟨hab.inside, fun r hr => (hab.references r hr).1, bHash, hnb, rfl⟩
  rw [hfa, hfb, Except.ok.injEq, String.toUTF8_eq_toByteArray, String.toUTF8_eq_toByteArray,
    String.toByteArray_inj, String.ofList_inj]

theorem fingerprint_binds_iff {a b : NarInfo} {ha hb : StorePathHash}
    (hva : validatePublishNarinfo signer.storeDir a = .ok ha)
    (hvb : validatePublishNarinfo signer.storeDir b = .ok hb) :
    (signer.fingerprint a = signer.fingerprint b → SameSigned a b) ↔
      ¬ CommaConfusion a b ∧ ¬ Swallows a b ∧ ¬ Swallows b a := by
  have haa := validatePublishNarinfo_ok hva
  have hab := validatePublishNarinfo_ok hvb
  obtain ⟨-, -, aHash, hna, -, -⟩ := haa.compression
  obtain ⟨-, -, bHash, hnb, -, -⟩ := hab.compression
  rw [fingerprint_eq_iff_text haa hab hna hnb]
  constructor
  · refine fun h => ⟨fun hc => ?_, fun hs => ?_, fun hs => ?_⟩
    · exact hc.references (h (text_of_commaConfusion haa hab hna hnb hc)).references
    · exact hs.storePath_ne (h (text_of_swallows hna hnb hs)).storePath
    · exact hs.storePath_ne (h (text_of_swallows hnb hna hs).symm).storePath.symm
  · exact fun ⟨hc, hs, hs'⟩ h => sameSigned_of_text haa hab hna hnb h hc hs hs'

end Signer

end Codec

section Hello

open RoundTrip

attribute [local instance] standardBase64 keyless

def glibc : Text := "/nix/store/0123456789abcdfghijklmnpqrsvwxyz-glibc".toList

def gcc : Text := "/nix/store/zyxwvsrqpnmlkjihgfdcba9876543210-gcc".toList

def helloReferring (references : List Text) : NarInfo := { hello "hello".toList with references }

theorem helloReferring_binds_iff :
    (keylessSigner.fingerprint (helloReferring [glibc]) =
      keylessSigner.fingerprint (helloReferring [gcc]) →
        SameSigned (helloReferring [glibc]) (helloReferring [gcc])) ↔
      ¬ CommaConfusion (helloReferring [glibc]) (helloReferring [gcc]) ∧
        ¬ Swallows (helloReferring [glibc]) (helloReferring [gcc]) ∧
        ¬ Swallows (helloReferring [gcc]) (helloReferring [glibc]) := by
  have hva : validatePublishNarinfo keylessSigner.storeDir (helloReferring [glibc]) =
      .ok helloHash := by decide
  have hvb : validatePublishNarinfo keylessSigner.storeDir (helloReferring [gcc]) =
      .ok helloHash := by decide
  exact fingerprint_binds_iff hva hvb

theorem helloReferring_fingerprint_collides :
    validatePublishNarinfo StoreDir.defaultNix (helloReferring [glibc, gcc]) = .ok helloHash ∧
      validatePublishNarinfo StoreDir.defaultNix (helloReferring [glibc ++ ',' :: gcc]) =
        .ok helloHash ∧
      keylessSigner.fingerprint (helloReferring [glibc, gcc]) =
        keylessSigner.fingerprint (helloReferring [glibc ++ ',' :: gcc]) ∧
      ¬ SameSigned (helloReferring [glibc, gcc]) (helloReferring [glibc ++ ',' :: gcc]) := by
  have hva : validatePublishNarinfo keylessSigner.storeDir (helloReferring [glibc, gcc]) =
      .ok helloHash := by decide
  have hvb : validatePublishNarinfo keylessSigner.storeDir
      (helloReferring [glibc ++ ',' :: gcc]) = .ok helloHash := by decide
  have haa := validatePublishNarinfo_ok hva
  have hab := validatePublishNarinfo_ok hvb
  obtain ⟨-, -, narHash, hn, -, -⟩ := haa.compression
  have htext : fingerprintText (helloReferring [glibc, gcc]) narHash =
      fingerprintText (helloReferring [glibc ++ ',' :: gcc]) narHash := by
    have hj : joined (helloReferring [glibc, gcc]) =
        joined (helloReferring [glibc ++ ',' :: gcc]) := by decide
    rw [fingerprintText_eq, fingerprintText_eq, hj]
    rfl
  refine ⟨hva, hvb, (fingerprint_eq_iff_text haa hab hn hn).mpr htext, fun h => ?_⟩
  have := h.references.length_eq
  exact absurd this (by decide)

end Hello

end Fingerprint
