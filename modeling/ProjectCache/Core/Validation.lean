import ProjectCache.Core.DepotPath
import ProjectCache.Core.NarInfo

namespace Validation

open Textual Nix DepotPath Narinfo

inductive PublishNarInfoValidationError where
  | storePathOutsideStoreDir (storeDir path : Text)
  | invalidStorePathHash (path : Text) (source : StorePathHashError)
  | invalidDepotObjectPath (url : Text)
  | urlIsNotNarObject (url : Text)
  | unsupportedCompression (compression : Text)
  | compressionMismatch (narinfoCompression urlCompression : Text)
  | invalidNarHash (storePath : Text) (source : NixHashError)
  | urlDoesNotMatchNarHash (actualUrl expectedUrl : Text)
  | referenceOutsideStoreDir (storeDir path : Text)
  | invalidReferenceStorePath (path : Text) (source : StorePathHashError)
  | deriverOutsideStoreDir (storeDir path : Text)
  | invalidDeriverStorePath (path : Text) (source : StorePathHashError)
  deriving DecidableEq, Repr

def parseNarUrl (url : Text) : Except PublishNarInfoValidationError (Text × NarCompression) :=
  match parseDepotObjectPath url with
  | some (.nar narHashDigest compression) => .ok (narHashDigest, compression)
  | some _ => .error (.urlIsNotNarObject url)
  | none => .error (.invalidDepotObjectPath url)

def validateStorePathInsideStoreDir (storeDir : StoreDir) (path : Text) :
    Except PublishNarInfoValidationError Unit :=
  if storeDir.containsPath path then .ok ()
  else .error (.storePathOutsideStoreDir storeDir.path path)

def validatePathInside (outside : Text → Text → PublishNarInfoValidationError)
    (invalid : Text → StorePathHashError → PublishNarInfoValidationError)
    (storeDir : StoreDir) (path : Text) : Except PublishNarInfoValidationError Unit :=
  if ¬ storeDir.containsPath path then .error (outside storeDir.path path)
  else
    match StorePathHash.parseFromStorePath path with
    | .error source => .error (invalid path source)
    | .ok _ => .ok ()

def validateReference (storeDir : StoreDir) (reference : Text) :
    Except PublishNarInfoValidationError Unit :=
  validatePathInside .referenceOutsideStoreDir .invalidReferenceStorePath storeDir reference

def validateDeriver (storeDir : StoreDir) (deriver : Text) :
    Except PublishNarInfoValidationError Unit :=
  validatePathInside .deriverOutsideStoreDir .invalidDeriverStorePath storeDir deriver

def validateReferences (storeDir : StoreDir) :
    List Text → Except PublishNarInfoValidationError Unit
  | [] => .ok ()
  | reference :: rest => do
    validateReference storeDir reference
    validateReferences storeDir rest

def expectedUrl (narHash : NormalizedNarHash) (compression : NarCompression) : Text :=
  "nar/".toList ++ narHash.digest ++ compression.fileSuffix

variable [Base64]

def validateUrl (n : NarInfo) : Except PublishNarInfoValidationError Unit := do
  let (urlNarHashDigest, urlCompression) ← parseNarUrl n.url
  let narinfoCompression ←
    match NarCompression.fromNarinfoCompression n.compression with
    | some compression => .ok compression
    | none => .error (.unsupportedCompression n.compression)
  if narinfoCompression ≠ urlCompression then
    .error (.compressionMismatch n.compression urlCompression.narinfoCompression)
  else do
    let normalizedNarHash ←
      match n.normalizedNarHash with
      | .ok narHash => .ok narHash
      | .error source => .error (.invalidNarHash n.storePath source)
    if n.url ≠ expectedUrl normalizedNarHash narinfoCompression ∨
        urlNarHashDigest ≠ normalizedNarHash.digest then
      .error (.urlDoesNotMatchNarHash n.url (expectedUrl normalizedNarHash narinfoCompression))
    else .ok ()

def validatePublishNarinfo (storeDir : StoreDir) (n : NarInfo) :
    Except PublishNarInfoValidationError StorePathHash := do
  validateStorePathInsideStoreDir storeDir n.storePath
  let storePathHash ←
    match StorePathHash.parseFromStorePath n.storePath with
    | .ok storePathHash => .ok storePathHash
    | .error source => .error (.invalidStorePathHash n.storePath source)
  validateUrl n
  validateReferences storeDir n.references
  match n.deriver with
  | some deriver => validateDeriver storeDir deriver
  | none => .ok ()
  return storePathHash

def PathInside (storeDir : StoreDir) (path : Text) : Prop :=
  storeDir.containsPath path = true ∧ ∃ h, StorePathHash.parseFromStorePath path = .ok h

structure Accepted (storeDir : StoreDir) (n : NarInfo) (h : StorePathHash) : Prop where
  inside : storeDir.containsPath n.storePath = true
  hash : StorePathHash.parseFromStorePath n.storePath = .ok h
  compression : ∃ c, NarCompression.fromNarinfoCompression n.compression = some c ∧
    ∃ narHash, n.normalizedNarHash = .ok narHash ∧ narHash.digest.length = 52 ∧
      n.url = expectedUrl narHash c
  references : ∀ r ∈ n.references, PathInside storeDir r
  deriver : ∀ d ∈ n.deriver, PathInside storeDir d

omit [Base64] in
theorem validatePathInside_eq_ok {outside invalid} {storeDir : StoreDir} {path : Text} :
    validatePathInside outside invalid storeDir path = .ok () ↔ PathInside storeDir path := by
  unfold validatePathInside PathInside
  cases hc : storeDir.containsPath path with
  | false => simp
  | true =>
    cases hp : StorePathHash.parseFromStorePath path with
    | error e => simp
    | ok h => simp

omit [Base64] in
theorem validateReference_eq_ok {s : StoreDir} {r : Text} :
    validateReference s r = .ok () ↔ PathInside s r := validatePathInside_eq_ok

omit [Base64] in
theorem validateDeriver_eq_ok {s : StoreDir} {d : Text} :
    validateDeriver s d = .ok () ↔ PathInside s d := validatePathInside_eq_ok

omit [Base64] in
theorem validateReferences_eq_ok {storeDir : StoreDir} {rs : List Text} :
    validateReferences storeDir rs = .ok () ↔ ∀ r ∈ rs, PathInside storeDir r := by
  induction rs with
  | nil => simp [validateReferences]
  | cons r rs ih =>
    have hr := validateReference_eq_ok (r := r) (s := storeDir)
    cases hv : validateReference storeDir r with
    | error e =>
      have : ¬ PathInside storeDir r := by simp [← hr, hv]
      simp [validateReferences, hv, this, bind, Except.bind]
    | ok u =>
      have : PathInside storeDir r := by simp [← hr, hv]
      simp [validateReferences, hv, this, ih, bind, Except.bind]

theorem validateUrl_ok {n : NarInfo} (h : validateUrl n = .ok ()) :
    ∃ c, NarCompression.fromNarinfoCompression n.compression = some c ∧
      ∃ narHash, n.normalizedNarHash = .ok narHash ∧ narHash.digest.length = 52 ∧
        n.url = expectedUrl narHash c := by
  simp only [validateUrl, bind, Except.bind] at h
  cases hu : parseNarUrl n.url with
  | error e => simp [hu] at h
  | ok q =>
    obtain ⟨digest, uc⟩ := q
    cases hc : NarCompression.fromNarinfoCompression n.compression with
    | none => simp [hu, hc] at h
    | some c =>
      cases hn : n.normalizedNarHash with
      | error e =>
        simp only [hu, hc, hn] at h
        split at h <;> simp at h
      | ok narHash =>
        simp only [hu, hc, hn] at h
        split at h
        · simp at h
        · split at h
          · simp at h
          · rename_i hv
            simp only [not_or, ne_eq, not_not] at hv
            refine ⟨c, rfl, narHash, rfl, ?_, hv.1⟩
            have hp : parseDepotObjectPath n.url = some (.nar digest uc) := by
              unfold parseNarUrl at hu
              split at hu
              · rename_i hp
                simp only [Except.ok.injEq, Prod.mk.injEq] at hu
                rw [hp, hu.1, hu.2]
              · simp at hu
              · simp at hu
            rw [← hv.2]
            exact (narFile_eq_some (parseDepotObjectPath_nar hp)).2.1

theorem validateUrl_of_expected {n : NarInfo} {c : NarCompression} {narHash : NormalizedNarHash}
    (hc : NarCompression.fromNarinfoCompression n.compression = some c)
    (hn : n.normalizedNarHash = .ok narHash) (hl : narHash.digest.length = 52)
    (hu : n.url = expectedUrl narHash c) : validateUrl n = .ok () := by
  have hp : parseNarUrl n.url = .ok (narHash.digest, c) := by
    rw [parseNarUrl, hu, expectedUrl, parseDepotObjectPath_append hl narHash.alphabet]
  simp only [validateUrl, hp, hc, hn, bind, Except.bind]
  rw [if_neg (not_not.mpr rfl), if_neg (by simp [hu])]

theorem validatePublishNarinfo_ok {storeDir : StoreDir} {n : NarInfo} {h : StorePathHash}
    (hv : validatePublishNarinfo storeDir n = .ok h) : Accepted storeDir n h := by
  simp only [validatePublishNarinfo, validateStorePathInsideStoreDir, bind, Except.bind] at hv
  split at hv
  · simp at hv
  · rename_i hi
    cases hp : StorePathHash.parseFromStorePath n.storePath with
    | error e => simp [hp] at hv
    | ok h' =>
      cases hu : validateUrl n with
      | error e => simp [hp, hu] at hv
      | ok u =>
        cases hr : validateReferences storeDir n.references with
        | error e => simp [hp, hu, hr] at hv
        | ok v =>
          have hd : ∀ d ∈ n.deriver, PathInside storeDir d := by
            intro d hd
            rw [Option.mem_def] at hd
            rw [← validateDeriver_eq_ok]
            cases hvd : validateDeriver storeDir d with
            | error e => simp [hp, hu, hr, hd, hvd] at hv
            | ok w => rfl
          refine ⟨?_, ?_, validateUrl_ok hu, validateReferences_eq_ok.mp hr, hd⟩
          · by_contra hn
            simp [hn] at hi
          · cases hde : n.deriver with
            | none => simpa [hp, hu, hr, hde, pure, Except.pure] using hv
            | some d =>
              cases hvd : validateDeriver storeDir d with
              | error e => simp [hp, hu, hr, hde, hvd] at hv
              | ok w => simpa [hp, hu, hr, hde, hvd, pure, Except.pure] using hv

theorem validatePublishNarinfo_eq_ok {storeDir : StoreDir} {n : NarInfo} {h : StorePathHash} :
    validatePublishNarinfo storeDir n = .ok h ↔ Accepted storeDir n h := by
  refine ⟨validatePublishNarinfo_ok, fun ha => ?_⟩
  obtain ⟨c, hc, narHash, hn, hl, hu⟩ := ha.compression
  have hurl := validateUrl_of_expected hc hn hl hu
  have hr := validateReferences_eq_ok.mpr ha.references
  have hd : ∀ d ∈ n.deriver, validateDeriver storeDir d = .ok () :=
    fun d hd => validateDeriver_eq_ok.mpr (ha.deriver d hd)
  simp only [validatePublishNarinfo, validateStorePathInsideStoreDir, ha.inside, ha.hash, hurl, hr,
    if_true, bind, Except.bind, pure, Except.pure]
  cases hde : n.deriver with
  | none => rfl
  | some d => simp only [hd d hde]

end Validation
