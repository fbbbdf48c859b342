import ProjectCache.Core.Nix

namespace DepotPath

open Textual Nix

inductive NarCompression where
  | uncompressed
  | zstd
  | xz
  | bz2
  deriving DecidableEq, Repr

namespace NarCompression

def fromNarinfoCompression (value : Text) : Option NarCompression :=
  if value = [] ∨ value = "none".toList then some .uncompressed
  else if value = "zstd".toList then some .zstd
  else if value = "xz".toList then some .xz
  else if value = "bzip2".toList ∨ value = "bz2".toList then some .bz2
  else none

def narinfoCompression : NarCompression → Text
  | uncompressed => "none".toList
  | zstd => "zstd".toList
  | xz => "xz".toList
  | bz2 => "bzip2".toList

def fileSuffix : NarCompression → Text
  | uncompressed => ".nar".toList
  | zstd => ".nar.zst".toList
  | xz => ".nar.xz".toList
  | bz2 => ".nar.bz2".toList

theorem fromNarinfoCompression_mem {value : Text} {c : NarCompression}
    (h : fromNarinfoCompression value = some c) :
    value ∈ ["", "none", "zstd", "xz", "bzip2", "bz2"].map String.toList := by
  unfold fromNarinfoCompression at h
  split_ifs at h with h0 h1 h2 h3
  · rcases h0 with rfl | rfl <;> simp
  · simp [h1]
  · simp [h2]
  · rcases h3 with rfl | rfl <;> simp

end NarCompression

inductive DepotObjectPath where
  | nixCacheInfo
  | indexHtml
  | narInfo (storePathHash : StorePathHash)
  | nar (narHashDigest : Text) (compression : NarCompression)
  | listing (storePathHash : StorePathHash)
  | log (path : Text)
  | realisation (path : Text)
  deriving DecidableEq

def isAlphanumeric (c : Char) : Bool := c.isAlpha || c.isDigit

def nonemptyAll (p : Char → Bool) (s : Text) : Bool := s ≠ [] && s.all p

def hashFile (suffix path : Text) : Option Text :=
  (stripSuffix suffix path).filter
    (fun hash => hash.length = StorePathHash.LENGTH && hash.all nixBase32Alphabet.contains)

def narFile (path : Text) : Option (Text × NarCompression) := do
  let rest ← stripPrefix "nar/".toList path
  let digest := rest.take 52
  let compression ←
    [NarCompression.uncompressed, .zstd, .xz, .bz2].find? (fun c => rest.drop 52 = c.fileSuffix)
  if digest.length = 52 && digest.all nixBase32Alphabet.contains then
    some (digest, compression)
  else none

def isLogFile (path : Text) : Bool :=
  match (stripPrefix "log/".toList path).bind (stripSuffix ".drv".toList) with
  | some name => nonemptyAll (fun c => isAlphanumeric c || c ∈ ['.', '_', '-']) name
  | none => false

def isRealisationFile (path : Text) : Bool :=
  match (stripPrefix "realisations/".toList path).bind (splitOnce ':') with
  | none => false
  | some (algorithm, rest) =>
    match splitOnce '!' rest with
    | none => false
    | some (hash, file) =>
      match stripSuffix ".doi".toList file with
      | none => false
      | some output =>
        nonemptyAll (fun c => c.isLower || c.isDigit) algorithm &&
          nonemptyAll (fun c => isAlphanumeric c || c ∈ ['+', '/', '=']) hash &&
          nonemptyAll (fun c => isAlphanumeric c || c ∈ ['_', '-']) output

def parseDepotObjectPath (path : Text) : Option DepotObjectPath :=
  if path = [] ∨ startsWith ['/'] path ∨ containsText "..".toList path then none
  else if path = "nix-cache-info".toList then some .nixCacheInfo
  else if path = "index.html".toList then some .indexHtml
  else
    match hashFile ".narinfo".toList path with
    | some hashText => (StorePathHash.fromHash hashText).toOption.map .narInfo
    | none =>
      match narFile path with
      | some (narHashDigest, compression) => some (.nar narHashDigest compression)
      | none =>
        match hashFile ".ls".toList path with
        | some hashText => (StorePathHash.fromHash hashText).toOption.map .listing
        | none =>
          if isLogFile path then some (.log path)
          else if isRealisationFile path then some (.realisation path)
          else none

theorem narFile_eq_some {path digest : Text} {c : NarCompression} :
    narFile path = some (digest, c) →
      path = "nar/".toList ++ digest ++ c.fileSuffix ∧ digest.length = 52 ∧
        ∀ d ∈ digest, d ∈ nixBase32Alphabet := by
  intro h
  simp only [narFile, Option.bind_eq_bind, Option.bind_eq_some_iff] at h
  obtain ⟨rest, hr, c', hc, h⟩ := h
  split at h
  · rename_i hd
    simp only [Option.some.injEq, Prod.mk.injEq] at h
    obtain ⟨rfl, rfl⟩ := h
    simp only [Bool.and_eq_true, decide_eq_true_eq, List.all_eq_true, List.contains_iff_mem] at hd
    have hs : rest.drop 52 = c'.fileSuffix := by simpa using List.find?_some hc
    refine ⟨?_, hd⟩
    rw [stripPrefix_eq_some.mp hr, List.append_assoc, ← hs, List.take_append_drop]
  · cases h

theorem parseDepotObjectPath_nar {path digest : Text} {c : NarCompression}
    (h : parseDepotObjectPath path = some (.nar digest c)) : narFile path = some (digest, c) := by
  unfold parseDepotObjectPath at h
  repeat' split at h
  all_goals first
    | simp at h; done
    | rename_i hn; simpa [hn] using h

theorem narFile_append {digest : Text} (hl : digest.length = 52)
    (ha : ∀ d ∈ digest, d ∈ nixBase32Alphabet) (c : NarCompression) :
    narFile ("nar/".toList ++ digest ++ c.fileSuffix) = some (digest, c) := by
  have htake : (digest ++ c.fileSuffix).take 52 = digest := by rw [← hl, List.take_left]
  have hdrop : (digest ++ c.fileSuffix).drop 52 = c.fileSuffix := by rw [← hl, List.drop_left]
  have hfind : [NarCompression.uncompressed, .zstd, .xz, .bz2].find?
      (fun d => c.fileSuffix = d.fileSuffix) = some c := by cases c <;> decide
  have hall : (digest.length = 52 && digest.all nixBase32Alphabet.contains) = true := by
    simpa [hl] using ha
  rw [narFile, List.append_assoc, stripPrefix_append]
  simp only [Option.bind_eq_bind, Option.bind_some, htake, hdrop, hfind, hall, if_true]

theorem parseDepotObjectPath_append {digest : Text} (hl : digest.length = 52)
    (ha : ∀ d ∈ digest, d ∈ nixBase32Alphabet) (c : NarCompression) :
    parseDepotObjectPath ("nar/".toList ++ digest ++ c.fileSuffix) = some (.nar digest c) := by
  have hdot : '.' ∉ "nar/".toList ++ digest := by
    rw [List.mem_append, not_or]
    exact ⟨by decide, fun h => absurd (ha _ h) (by decide)⟩
  have hdots : containsText "..".toList ("nar/".toList ++ digest ++ c.fileSuffix) = false :=
    (containsText_append hdot _).trans (by cases c <;> decide)
  have hlen : 56 ≤ ("nar/".toList ++ digest ++ c.fileSuffix).length := by
    simp only [List.length_append, hl]
    exact Nat.le_add_right _ _
  have hhash : hashFile ".narinfo".toList ("nar/".toList ++ digest ++ c.fileSuffix) = none := by
    rw [hashFile, Option.filter_eq_none_iff]
    intro hash hs
    rw [stripSuffix_eq_some] at hs
    have hlong : 48 ≤ hash.length := by
      rw [hs] at hlen
      simpa using hlen
    have hne : hash.length ≠ StorePathHash.LENGTH := by
      simp only [StorePathHash.LENGTH]
      omega
    simp [hne]
  have hguard : ¬ ("nar/".toList ++ digest ++ c.fileSuffix = [] ∨
      startsWith ['/'] ("nar/".toList ++ digest ++ c.fileSuffix) = true ∨
      containsText "..".toList ("nar/".toList ++ digest ++ c.fileSuffix) = true) := by
    rw [hdots]
    simp [startsWith, stripPrefix]
  have hconstant : ∀ text : Text, text.length < 56 →
      "nar/".toList ++ digest ++ c.fileSuffix ≠ text := by
    rintro text ht rfl
    omega
  unfold parseDepotObjectPath
  rw [if_neg hguard, if_neg (hconstant _ (by decide)), if_neg (hconstant _ (by decide)), hhash,
    narFile_append hl ha c]

end DepotPath
