import ProjectCache.Core.RoundTrip

namespace Canonical

open Textual Nix Narinfo Signing RoundTrip

def Unbroken (t : Text) : Prop := ∀ c ∈ t, c ≠ '\n' ∧ c ≠ '\r'

theorem Unbroken.append {a b : Text} (ha : Unbroken a) (hb : Unbroken b) : Unbroken (a ++ b) := by
  intro c hc
  rcases List.mem_append.mp hc with hc | hc
  · exact ha c hc
  · exact hb c hc

theorem Unbroken.cons {c : Char} {t : Text} (hc : c ≠ '\n' ∧ c ≠ '\r') (ht : Unbroken t) :
    Unbroken (c :: t) := by
  intro d hd
  rcases List.mem_cons.mp hd with rfl | hd
  · exact hc
  · exact ht d hd

theorem Unbroken.singleLine {t : Text} (h : Unbroken t) : SingleLine t := singleLine_of_forall h

theorem unbroken_literal {t : Text} (h : t.all (fun c => c ≠ '\n' ∧ c ≠ '\r') = true) :
    Unbroken t := by
  intro c hc
  simpa using List.all_eq_true.mp h c hc

def algorithmTexts : HashAlgorithm → List Text
  | .other name => [name]
  | _ => []

def encodingTexts : HashTextEncoding → List Text
  | .other name => [name]
  | _ => []

def hashTexts : NixHash → List Text
  | .raw text => [text]
  | .structured algorithm encoding digest =>
    algorithmTexts algorithm ++ encoding.toList.flatMap encodingTexts ++ [digest]

def methodTexts : ContentAddressMethod → List Text
  | .other name => [name]
  | _ => []

def caTexts : NixContentAddress → List Text
  | .raw text => [text]
  | .structured method hash => methodTexts method ++ hashTexts hash

structure CanonicalDocument (s : StoreDir) (n : NarInfo) : Prop where
  storePath : Unbroken n.storePath
  url : Unbroken n.url
  compression : Unbroken n.compression
  references : ∀ r ∈ n.references, ∃ name, ShownAs s r name ∧ name ≠ [] ∧
    ∀ c ∈ name, isWhitespace c = false
  deriver : ∀ d ∈ n.deriver, Unbroken d ∧ ∃ name, ShownAs s d name ∧ name ≠ []
  ca : ∀ ca ∈ n.ca, ∀ t ∈ caTexts ca, Unbroken t

theorem unbroken_asStr {a : HashAlgorithm} (h : ∀ t ∈ algorithmTexts a, Unbroken t) :
    Unbroken a.asStr := by
  cases a with
  | other name => exact h name (by simp [algorithmTexts])
  | _ => exact unbroken_literal (by decide)

theorem unbroken_display (h : NormalizedNarHash) : Unbroken h.display := by
  rw [NormalizedNarHash.display_eq]
  exact .append (unbroken_literal (by decide)) (fun c hc => alphabet_ne_newline (h.alphabet c hc))

section Codec

variable [Base64]

omit [Base64] in
theorem unbroken_renderText {h : NixHash} (hh : ∀ t ∈ hashTexts h, Unbroken t) :
    Unbroken h.renderText := by
  cases h with
  | raw text => exact hh text (by simp [hashTexts])
  | structured a e d =>
    have ha : Unbroken a.asStr := unbroken_asStr (fun t ht => hh t (by simp [hashTexts, ht]))
    have hd : Unbroken d := hh d (by simp [hashTexts])
    unfold NixHash.renderText
    split
    · rename_i heq
      cases heq
    · rename_i heq
      cases heq
      exact ha.append (hd.cons (by decide))
    · rename_i heq
      cases heq
      exact ha.append (hd.cons (by decide))

theorem unbroken_formatForNarinfo {ca : NixContentAddress}
    (h : ∀ t ∈ caTexts ca, Unbroken t) : Unbroken ca.formatForNarinfo := by
  cases ca with
  | raw text => exact h text (by simp [caTexts])
  | structured method hash =>
    have hraw : Unbroken hash.renderText :=
      unbroken_renderText (fun t ht => h t (by simp [caTexts, ht]))
    unfold NixContentAddress.formatForNarinfo
    cases method with
    | other name =>
      refine (h name (by simp [caTexts, methodTexts])).append (Unbroken.cons (by decide) ?_)
      split
      · exact unbroken_display _
      · exact hraw
    | _ =>
      refine (unbroken_literal (by decide)).append ?_
      split
      · exact unbroken_display _
      · exact hraw

variable {s : StoreDir} {n : NarInfo}

theorem CanonicalDocument.plain (h : CanonicalDocument s n) : Plain s n where
  storePath := h.storePath.singleLine
  references := by
    intro r hr
    obtain ⟨name, hs, -, hw⟩ := h.references r hr
    exact ⟨name, hs, hw⟩
  deriver := by
    intro d hd
    obtain ⟨hu, name, hs, -⟩ := h.deriver d hd
    refine ⟨name, hs, singleLine_of_forall (fun c hc => hu c ?_)⟩
    rw [hs.1]
    exact List.mem_append_right _ (List.mem_cons_of_mem _ hc)
  ca := by
    intro c hc
    obtain ⟨ca, hca, rfl⟩ := Option.map_eq_some_iff.mp hc
    exact (unbroken_formatForNarinfo (h.ca ca hca)).singleLine

omit [Base64] in
theorem CanonicalDocument.displayPath_ne_nil (h : CanonicalDocument s n) :
    ∀ r ∈ n.references, s.displayPath r ≠ [] := by
  intro r hr
  obtain ⟨name, hs, hne, -⟩ := h.references r hr
  rwa [hs.displayPath]

omit [Base64] in
theorem sortTexts_sortTexts (ts : List Text) : sortTexts (sortTexts ts) = sortTexts ts :=
  sortTexts_eq_of_perm (sortTexts_perm ts)

theorem renderedLines_servedCopy (narHash : NormalizedNarHash) (signatures : List Text) :
    (NarInfoRenderer.mk s).renderedLines (servedCopy n narHash signatures) narHash
        (sortTexts signatures) =
      (NarInfoRenderer.mk s).renderedLines n narHash signatures := by
  have hrefs : (servedCopy n narHash signatures).sortedReferences = n.sortedReferences :=
    sortTexts_sortTexts n.references
  have hlater : laterLines s (servedCopy n narHash signatures) (sortTexts signatures) =
      laterLines s n signatures := by
    rw [laterLines, servedCopy_caNarinfoString, sortTexts_sortTexts]
    rfl
  rw [renderedLines_eq, renderedLines_eq, hrefs, hlater]
  rfl

theorem render_servedCopy {narHash : NormalizedNarHash} (hl : narHash.digest.length = 52)
    (signatures : List Text) :
    (NarInfoRenderer.mk s).render (servedCopy n narHash signatures) =
      .ok (unlines ((NarInfoRenderer.mk s).renderedLines n narHash signatures)) := by
  have hn : (servedCopy n narHash signatures).normalizedNarHash = .ok narHash :=
    NormalizedNarHash.parseText_display hl
  have hs : (servedCopy n narHash signatures).signatures = sortTexts signatures := rfl
  rw [NarInfoRenderer.render, renderWithSignatures_eq hn, hs, renderedLines_servedCopy]

theorem codec_lossless [Ed25519] (signer : NarInfoSigner) (n : NarInfo)
    (narHash : NormalizedNarHash) (signatures : List Text)
    (hc : CanonicalDocument signer.storeDir n) (hn : n.normalizedNarHash = .ok narHash)
    (hl : narHash.digest.length = 52) (hs : ∀ x ∈ signatures, Unbroken x) :
    ∃ text,
      (NarInfoRenderer.mk signer.storeDir).renderWithSignatures n signatures = .ok text ∧
      parseNarinfo text signer.storeDir = .ok (servedCopy n narHash signatures) ∧
      (NarInfoRenderer.mk signer.storeDir).render (servedCopy n narHash signatures) = .ok text ∧
      ∀ message, signer.fingerprint n = .ok message →
        signer.fingerprint (servedCopy n narHash signatures) = .ok message := by
  have hu : SingleLine n.url ∧ SingleLine n.compression :=
    ⟨hc.url.singleLine, hc.compression.singleLine⟩
  have hparse := (parse_rendered hu hc.plain hc.displayPath_ne_nil
    (fun x hx => (hs x hx).singleLine) narHash _ rfl).2
  exact ⟨_, renderWithSignatures_eq hn signatures, hparse, render_servedCopy hl signatures,
    fun message hf => fingerprint_servedCopy hn hl signatures hf⟩

end Codec

section Hello

attribute [local instance] standardBase64 keyless

def helloDigest : NormalizedNarHash where
  algorithm := .sha256
  digest := "020ay2q1av2xs4n842rb3d7vz8qms1dcb87a5yd6azaci20x11lz".toList
  supported := HashAlgorithm.sha256_supported
  alphabet := fun c hc => by
    have hall : "020ay2q1av2xs4n842rb3d7vz8qms1dcb87a5yd6azaci20x11lz".toList.all
        (fun c => c ∈ nixBase32Alphabet) = true := by decide
    simpa using List.all_eq_true.mp hall c hc

theorem unspaced_literal {t : Text} (h : t.all (fun c => !isWhitespace c) = true) :
    ∀ c ∈ t, isWhitespace c = false := by
  intro c hc
  simpa using List.all_eq_true.mp h c hc

def helloWorld : NarInfo :=
  { hello "hello".toList with
    references := ["/nix/store/glibc".toList, "/nix/store/References:".toList]
    deriver := some "/nix/store/Sig: hello.drv".toList
    ca := some (.structured .nar (.raw "sha256:".toList)) }

theorem helloWorld_lossless : ∃ text,
    (NarInfoRenderer.mk StoreDir.defaultNix).renderWithSignatures helloWorld
      ["b:2".toList, "a:1".toList] = .ok text ∧
    parseNarinfo text StoreDir.defaultNix =
      .ok (servedCopy helloWorld helloDigest ["b:2".toList, "a:1".toList]) ∧
    (NarInfoRenderer.mk StoreDir.defaultNix).render
      (servedCopy helloWorld helloDigest ["b:2".toList, "a:1".toList]) = .ok text ∧
    ∀ message, keylessSigner.fingerprint helloWorld = .ok message →
      keylessSigner.fingerprint
        (servedCopy helloWorld helloDigest ["b:2".toList, "a:1".toList]) = .ok message := by
  have hc : CanonicalDocument keylessSigner.storeDir helloWorld := by
    refine ⟨unbroken_literal (by decide), unbroken_literal (by decide),
      unbroken_literal (by decide), ?_, ?_, ?_⟩
    · intro r hr
      have hr : r = "/nix/store/glibc".toList ∨ r = "/nix/store/References:".toList := by
        simpa [helloWorld] using hr
      rcases hr with rfl | rfl
      · exact ⟨"glibc".toList, ⟨by decide, by decide⟩, by decide, unspaced_literal (by decide)⟩
      · exact ⟨"References:".toList, ⟨by decide, by decide⟩, by decide,
        unspaced_literal (by decide)⟩
    · rintro d ⟨⟩
      exact ⟨unbroken_literal (by decide), "Sig: hello.drv".toList, ⟨by decide, by decide⟩,
        by decide⟩
    · rintro ca ⟨⟩ t ht
      have ht : t = "sha256:".toList := by simpa [caTexts, methodTexts, hashTexts] using ht
      exact ht ▸ unbroken_literal (by decide)
  exact codec_lossless keylessSigner helloWorld helloDigest ["b:2".toList, "a:1".toList] hc
    (by decide) (by decide) (by
      intro x hx
      have hx : x = "b:2".toList ∨ x = "a:1".toList := by simpa using hx
      rcases hx with rfl | rfl <;> exact unbroken_literal (by decide))

end Hello

end Canonical
