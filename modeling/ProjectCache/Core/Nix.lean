import Mathlib.Order.Basic
import ProjectCache.Lib.Rfc4648

namespace Nix

open Textual

class Base64 where
  encode : List UInt8 → Text
  decode : Text → Except Text (List UInt8)

def Base64.Printable [Base64] : Prop :=
  ∀ bytes, ∀ c ∈ Base64.encode bytes, Rfc4648.isEncodedCharacter c = true

@[reducible] def standardBase64 : Base64 where
  encode := Rfc4648.encode
  decode := fun text =>
    match Rfc4648.decode text with
    | some bytes => .ok bytes
    | none => .error "Invalid padding".toList

theorem standardBase64_printable : standardBase64.Printable :=
  fun _ _ hc => Rfc4648.isEncodedCharacter_of_mem_encode _ hc

def nixBase32Alphabet : Text := "0123456789abcdfghijklmnpqrsvwxyz".toList

inductive NixHashError where
  | unsupportedTextFormat (input : Text)
  | unsupportedAlgorithm (algorithm : Text)
  | unsupportedEncoding (encoding : Text)
  | invalidNixBase32Digest (algorithm digest : Text)
  | invalidBase64 (error : Text)
  deriving DecidableEq, Repr

inductive StorePathHashError where
  | missingHyphen (storePath : Text)
  | invalidLength (storePath : Text) (actual expected : Nat)
  | invalidCharacter (storePath : Text) (character : Char) (position : Nat)
  deriving DecidableEq, Repr

inductive StoreDirError where
  | empty
  | notAbsolute (path : Text)
  deriving DecidableEq, Repr

structure StoreDir where
  path : Text
  absolute : path.head? = some '/'
  trimmed : 1 < path.length → path.getLast? ≠ some '/'
  deriving DecidableEq

namespace StoreDir

def popSlashes : Text → Text
  | '/' :: c :: s => popSlashes (c :: s)
  | s => s

theorem popSlashes_suffix (s : Text) : popSlashes s <:+ s := by
  induction s using popSlashes.induct with
  | case1 c s ih => rw [popSlashes]; exact ih.trans (List.suffix_cons _ _)
  | case2 s h => rw [popSlashes]; exact h

theorem popSlashes_ne_nil {s : Text} (h : s ≠ []) : popSlashes s ≠ [] := by
  induction s using popSlashes.induct with
  | case1 c s ih => rw [popSlashes]; exact ih (by simp)
  | case2 s hs => rw [popSlashes]; exacts [h, hs]

theorem popSlashes_head {s : Text} (h : 1 < (popSlashes s).length) :
    (popSlashes s).head? ≠ some '/' := by
  induction s using popSlashes.induct with
  | case1 c s ih => rw [popSlashes] at h ⊢; exact ih h
  | case2 s hs =>
    rw [popSlashes] at h ⊢
    · match s, hs, h with
      | c :: d :: s, hs, _ =>
        simp only [List.head?_cons, ne_eq, Option.some.injEq]
        rintro rfl
        exact hs d s rfl
    all_goals exact hs

theorem popSlashes_getLast? {s : Text} (h : s ≠ []) :
    (popSlashes s).getLast? = s.getLast? := by
  obtain ⟨t, ht⟩ := popSlashes_suffix s
  obtain ⟨c, u, hu⟩ := List.exists_cons_of_ne_nil (popSlashes_ne_nil h)
  rw [hu] at ht ⊢
  rw [← ht, List.getLast?_append_cons]

def new (path : Text) : Except StoreDirError StoreDir :=
  if path = [] then .error .empty
  else if h : path.head? = some '/' then
    .ok
      { path := (popSlashes path.reverse).reverse
        absolute := by
          rw [List.head?_reverse, popSlashes_getLast?, List.getLast?_reverse, h]
          rintro e
          simp [List.reverse_eq_nil_iff.mp e] at h
        trimmed := by
          intro hl
          rw [List.getLast?_reverse]
          exact popSlashes_head (by simpa using hl) }
  else .error (.notAbsolute path)

def defaultNix : StoreDir :=
  { path := "/nix/store".toList
    absolute := by decide
    trimmed := by decide }

variable (s : StoreDir)

def containsPath (path : Text) : Bool :=
  if path = s.path then true
  else
    match stripPrefix s.path path with
    | some suffix => startsWith ['/'] suffix
    | none => false

def relativePath (path : Text) : Option Text :=
  if path = s.path then some [] else (stripPrefix s.path path).bind (stripPrefix ['/'])

def displayPath (path : Text) : Text := (s.relativePath path).getD path

def expandDisplayPath (value : Text) : Text :=
  if s.containsPath value then value
  else s.path ++ '/' :: trimStartMatches (· = '/') value

theorem path_ne_nil : s.path ≠ [] := by
  intro h
  have := s.absolute
  simp [h] at this

theorem containsPath_iff {path : Text} :
    s.containsPath path = true ↔ path = s.path ∨ ∃ rest, path = s.path ++ '/' :: rest := by
  unfold containsPath
  split
  · rename_i h
    simp [h]
  · rename_i h
    simp only [h, false_or]
    cases hp : stripPrefix s.path path with
    | none =>
      simp only [Bool.false_eq_true, false_iff, not_exists]
      rintro rest rfl
      simp [stripPrefix_append] at hp
    | some suffix =>
      rw [stripPrefix_eq_some] at hp
      subst hp
      simp only [startsWith_iff, List.append_cancel_left_eq]
      constructor
      · rintro ⟨t, ht⟩
        exact ⟨t, by simpa using ht.symm⟩
      · rintro ⟨t, ht⟩
        exact ⟨t, by simp [ht]⟩

@[simp] theorem displayPath_self : s.displayPath s.path = [] := by
  simp [displayPath, relativePath]

@[simp] theorem displayPath_append (rest : Text) :
    s.displayPath (s.path ++ '/' :: rest) = rest := by
  simp [displayPath, relativePath, stripPrefix_append, stripPrefix]

theorem expandDisplayPath_of_head {value : Text} (h : value.head? ≠ some '/') :
    s.expandDisplayPath value = s.path ++ '/' :: value := by
  have hc : s.containsPath value = false := by
    rw [← Bool.not_eq_true, containsPath_iff]
    have ha := s.absolute
    obtain ⟨c, p, hp⟩ := List.exists_cons_of_ne_nil s.path_ne_nil
    rintro (rfl | ⟨rest, rfl⟩)
    · exact h ha
    · rw [hp] at ha h
      exact h (by simpa using ha)
  have ht : trimStartMatches (· = '/') value = value := by
    cases value with
    | nil => rfl
    | cons c v => simp_all [trimStartMatches]
  rw [expandDisplayPath, if_neg (by simp [hc]), ht]

theorem expandDisplayPath_length_le (value : Text) :
    (s.expandDisplayPath value).length ≤ s.path.length + 1 + value.length := by
  unfold expandDisplayPath
  split
  · omega
  · have := (List.dropWhile_suffix (p := (fun c => decide (c = '/'))) (l := value)).length_le
    simp only [trimStartMatches, List.length_append, List.length_cons]
    omega

theorem expandDisplayPath_head_length_lt {value : Text} (h : value.head? = some '/') :
    (s.expandDisplayPath value).length < s.path.length + 1 + value.length := by
  unfold expandDisplayPath
  split
  · omega
  · cases value with
    | nil => simp at h
    | cons c v =>
      simp only [List.head?_cons, Option.some.injEq] at h
      have := (List.dropWhile_suffix (p := (fun c => decide (c = '/'))) (l := v)).length_le
      simp only [trimStartMatches, List.dropWhile_cons, h, decide_true, if_true,
        List.length_append, List.length_cons]
      omega

end StoreDir

-- The source truncates the code point to a byte, so some characters outside ASCII pass.
def isHashCharacter (c : Char) : Bool :=
  nixBase32Alphabet.any (fun a => a.toNat = c.toNat % 256)

def findInvalid (hash : Text) : Option (Char × Nat) :=
  hash.zipIdx.find? (fun q => !isHashCharacter q.1)

def StorePathHash.LENGTH : Nat := 32

structure StorePathHash where
  text : Text
  length : utf8Len text = StorePathHash.LENGTH
  characters : findInvalid text = none
  deriving DecidableEq

namespace StorePathHash

def fromHash (hash : Text) : Except StorePathHashError StorePathHash :=
  if hl : utf8Len hash = LENGTH then
    match hc : findInvalid hash with
    | some (character, position) => .error (.invalidCharacter hash character position)
    | none => .ok ⟨hash, hl, hc⟩
  else .error (.invalidLength hash (utf8Len hash) LENGTH)

def parseFromStorePath (storePath : Text) : Except StorePathHashError StorePathHash :=
  match splitOnce '-' (afterLast '/' storePath) with
  | some (hash, _) => fromHash hash
  | none => .error (.missingHyphen storePath)

@[ext] theorem ext {a b : StorePathHash} (h : a.text = b.text) : a = b := by
  cases a
  cases b
  simpa using h

theorem text_injective : Function.Injective StorePathHash.text := fun _ _ h => ext h

instance : LinearOrder StorePathHash := LinearOrder.lift' StorePathHash.text text_injective

theorem fromHash_eq_ok {hash : Text} {h : StorePathHash} :
    fromHash hash = .ok h ↔ h.text = hash := by
  constructor
  · intro hf
    unfold fromHash at hf
    split at hf
    · split at hf
      · cases hf
      · cases hf
        rfl
    · cases hf
  · rintro rfl
    unfold fromHash
    rw [dif_pos h.length]
    split
    · rename_i c p hc
      rw [h.characters] at hc
      cases hc
    · rfl

theorem parseFromStorePath_eq_ok {storePath : Text} {h : StorePathHash} :
    parseFromStorePath storePath = .ok h ↔
      ∃ name, splitOnce '-' (afterLast '/' storePath) = some (h.text, name) := by
  unfold parseFromStorePath
  cases hs : splitOnce '-' (afterLast '/' storePath) with
  | none => simp
  | some q =>
    simp only [fromHash_eq_ok, Option.some.injEq, Prod.ext_iff, exists_and_left, exists_eq',
      and_true]
    exact eq_comm

theorem parseFromStorePath_afterLast_ne_nil {storePath : Text} {h : StorePathHash}
    (hp : parseFromStorePath storePath = .ok h) : afterLast '/' storePath ≠ [] := by
  obtain ⟨name, hs⟩ := parseFromStorePath_eq_ok.mp hp
  rw [splitOnce_eq_some] at hs
  simp [hs.1]

end StorePathHash

def helloHash : StorePathHash := ⟨"26xbg1ndr7hbcncrlf9nhx5is2b25d13".toList, by decide, by decide⟩

def glibcHash : StorePathHash := ⟨"0123456789abcdfghijklmnpqrsvwxyz".toList, by decide, by decide⟩

inductive HashAlgorithm where
  | sha256
  | sha512
  | other (name : Text)
  deriving DecidableEq, Repr

namespace HashAlgorithm

def parse (value : Text) : HashAlgorithm :=
  if value = "sha256".toList then .sha256
  else if value = "sha512".toList then .sha512
  else .other value

def asStr : HashAlgorithm → Text
  | sha256 => "sha256".toList
  | sha512 => "sha512".toList
  | other name => name

def supportsNixBase32Conversion : HashAlgorithm → Bool
  | sha256 => true
  | _ => false

def nixBase32DigestLen : HashAlgorithm → Option Nat
  | sha256 => some 52
  | _ => none

theorem sha256_supported : sha256.supportsNixBase32Conversion = true := rfl

theorem eq_sha256_of_supports {a : HashAlgorithm} (h : a.supportsNixBase32Conversion = true) :
    a = .sha256 := by
  cases a <;> simp_all [supportsNixBase32Conversion]

end HashAlgorithm

inductive HashTextEncoding where
  | base64
  | nixBase32
  | other (name : Text)
  deriving DecidableEq, Repr

inductive HashTextSyntax where
  | sri
  | colonSeparated
  deriving DecidableEq, Repr

inductive NixHash where
  | raw (text : Text)
  | structured (algorithm : HashAlgorithm) (encoding : Option HashTextEncoding) (digest : Text)
  deriving DecidableEq, Repr

def parseHashText (input : Text) : Option (HashAlgorithm × HashTextSyntax × Text) :=
  match splitOnce ':' input with
  | some (algorithm, digest) => some (.parse algorithm, .colonSeparated, digest)
  | none =>
    match splitOnce '-' input with
    | some (algorithm, digest) => some (.parse algorithm, .sri, digest)
    | none => none

def isValidNixBase32Alphabet (digest : Text) : Bool :=
  digest ≠ [] && digest.all (fun c => nixBase32Alphabet.contains c)

def validateNix32TextDigest (algorithm : HashAlgorithm) (digest : Text) :
    Except NixHashError Unit :=
  if ¬ algorithm.supportsNixBase32Conversion then .error (.unsupportedAlgorithm algorithm.asStr)
  else if ¬ isValidNixBase32Alphabet digest then
    .error (.invalidNixBase32Digest algorithm.asStr digest)
  else
    match algorithm.nixBase32DigestLen with
    | some expectedLen =>
      if utf8Len digest ≠ expectedLen then
        .error (.invalidNixBase32Digest algorithm.asStr digest)
      else .ok ()
    | none => .ok ()

def nixBase32Symbol (c : UInt8) : Char := nixBase32Alphabet.getD (c &&& 0x1f).toNat '0'

def encodeNixBase32 (input : List UInt8) : Text :=
  if input = [] then []
  else
    let length := (input.length * 8 - 1) / 5 + 1
    (List.range length).reverse.map (fun n =>
      let bitOffset := n * 5
      let i := bitOffset / 8
      let j := bitOffset % 8
      let low := if i < input.length then input.getD i 0 >>> UInt8.ofNat j else 0
      let c :=
        if i + 1 < input.length ∧ j ≠ 0 then low ||| input.getD (i + 1) 0 <<< UInt8.ofNat (8 - j)
        else low
      nixBase32Symbol c)

theorem nixBase32Symbol_mem (c : UInt8) : nixBase32Symbol c ∈ nixBase32Alphabet := by
  have hc : (c &&& 0x1f).toNat < nixBase32Alphabet.length := by
    rw [UInt8.toNat_and]
    exact Nat.lt_of_le_of_lt Nat.and_le_right (by decide)
  rw [nixBase32Symbol, List.getD_eq_getElem?_getD, List.getElem?_eq_getElem hc]
  exact List.getElem_mem hc

theorem encodeNixBase32_mem {input : List UInt8} {c : Char} (h : c ∈ encodeNixBase32 input) :
    c ∈ nixBase32Alphabet := by
  unfold encodeNixBase32 at h
  split at h
  · simp at h
  · simp only [List.mem_map] at h
    obtain ⟨n, -, rfl⟩ := h
    exact nixBase32Symbol_mem _

-- A digest decoded from base64 is not checked for its length, only one given in nix-base32 is.
structure NormalizedNarHash where
  algorithm : HashAlgorithm
  digest : Text
  supported : algorithm.supportsNixBase32Conversion = true
  alphabet : ∀ c ∈ digest, c ∈ nixBase32Alphabet
  deriving DecidableEq

theorem isValidNixBase32Alphabet_iff {digest : Text} :
    isValidNixBase32Alphabet digest = true ↔
      digest ≠ [] ∧ ∀ c ∈ digest, c ∈ nixBase32Alphabet := by
  simp [isValidNixBase32Alphabet]

theorem validateNix32TextDigest_eq_ok {algorithm : HashAlgorithm} {digest : Text} :
    validateNix32TextDigest algorithm digest = .ok () ↔
      algorithm = .sha256 ∧ isValidNixBase32Alphabet digest = true ∧ utf8Len digest = 52 := by
  cases algorithm <;>
    simp [validateNix32TextDigest, HashAlgorithm.supportsNixBase32Conversion,
      HashAlgorithm.nixBase32DigestLen]
  split <;> simp_all

namespace NormalizedNarHash

variable [Base64]

def new (algorithm : HashAlgorithm) (digest : Text) : Except NixHashError NormalizedNarHash :=
  match h : validateNix32TextDigest algorithm digest with
  | .error e => .error e
  | .ok () =>
    .ok
      { algorithm := algorithm
        digest := digest
        supported := by rw [(validateNix32TextDigest_eq_ok.mp h).1]; rfl
        alphabet :=
          (isValidNixBase32Alphabet_iff.mp (validateNix32TextDigest_eq_ok.mp h).2.1).2 }

def fromBase64Digest (algorithm : HashAlgorithm) (digest : Text) :
    Except NixHashError NormalizedNarHash :=
  if h : algorithm.supportsNixBase32Conversion = true then
    match Base64.decode digest with
    | .error e => .error (.invalidBase64 e)
    | .ok hashBytes =>
      .ok
        { algorithm := algorithm
          digest := encodeNixBase32 hashBytes
          supported := h
          alphabet := fun _ hc => encodeNixBase32_mem hc }
  else .error (.unsupportedAlgorithm algorithm.asStr)

def parseText (input : Text) : Except NixHashError NormalizedNarHash :=
  match parseHashText input with
  | none => .error (.unsupportedTextFormat input)
  | some (algorithm, .sri, digest) => fromBase64Digest algorithm digest
  | some (algorithm, .colonSeparated, digest) => new algorithm digest

def fromNixHash : NixHash → Except NixHashError NormalizedNarHash
  | .raw text => parseText text
  | .structured algorithm (some .nixBase32) digest => new algorithm digest
  | .structured algorithm (some .base64) digest => fromBase64Digest algorithm digest
  | .structured algorithm none digest => fromBase64Digest algorithm digest
  | .structured _ (some (.other name)) _ => .error (.unsupportedEncoding name)

omit [Base64] in
theorem ext_digest {a b : NormalizedNarHash} (h : a.digest = b.digest) : a = b := by
  obtain ⟨aa, ad, ha, _⟩ := a
  obtain ⟨ba, bd, hb, _⟩ := b
  cases HashAlgorithm.eq_sha256_of_supports ha
  cases HashAlgorithm.eq_sha256_of_supports hb
  simpa using h

def display (h : NormalizedNarHash) : Text := h.algorithm.asStr ++ ':' :: h.digest

omit [Base64] in
theorem display_eq (h : NormalizedNarHash) : h.display = "sha256:".toList ++ h.digest := by
  rw [display, HashAlgorithm.eq_sha256_of_supports h.supported]
  rfl

omit [Base64] in
theorem display_injective : Function.Injective display := by
  intro a b h
  rw [display_eq, display_eq] at h
  exact ext_digest (List.append_cancel_left h)

theorem parseText_display {h : NormalizedNarHash} (hl : h.digest.length = 52) :
    parseText h.display = .ok h := by
  have hne : h.digest ≠ [] := by
    intro e
    simp [e] at hl
  have hlen : utf8Len h.digest = 52 := by
    have ha : ∀ c ∈ h.digest, c.utf8Size = 1 := by
      have hb : nixBase32Alphabet.all (fun c => c.utf8Size = 1) = true := by decide
      simpa using fun c hc => List.all_eq_true.mp hb c (h.alphabet c hc)
    rw [utf8Len, List.map_congr_left ha, ← hl]
    simp
  have hv : validateNix32TextDigest .sha256 h.digest = .ok () :=
    validateNix32TextDigest_eq_ok.mpr
      ⟨rfl, isValidNixBase32Alphabet_iff.mpr ⟨hne, h.alphabet⟩, hlen⟩
  have hs : splitOnce ':' h.display = some ("sha256".toList, h.digest) := by
    rw [display_eq]
    exact splitOnce_append (a := "sha256".toList) (by decide) h.digest
  have hp : parseHashText h.display = some (.sha256, .colonSeparated, h.digest) := by
    rw [parseHashText, hs]
    rfl
  rw [parseText, hp]
  simp only [new]
  split
  · rename_i e he
    rw [hv] at he
    cases he
  · exact congrArg Except.ok (ext_digest rfl)

end NormalizedNarHash

namespace NixHash

variable [Base64]

def renderText : NixHash → Text
  | .raw text => text
  | .structured algorithm (some .nixBase32) digest => algorithm.asStr ++ ':' :: digest
  | .structured algorithm _ digest => algorithm.asStr ++ '-' :: digest

def normalize (h : NixHash) : Except NixHashError NormalizedNarHash :=
  NormalizedNarHash.fromNixHash h

end NixHash

inductive ContentAddressMethod where
  | text
  | flat
  | nar
  | git
  | other (name : Text)
  deriving DecidableEq, Repr

inductive NixContentAddress where
  | raw (text : Text)
  | structured (method : ContentAddressMethod) (hash : NixHash)
  deriving DecidableEq, Repr

def NixContentAddress.formatForNarinfo [Base64] : NixContentAddress → Text
  | .raw text => text
  | .structured method hash =>
    let normalizedHash :=
      match hash.normalize with
      | .ok h => h.display
      | .error _ => hash.renderText
    match method with
    | .text => "text:".toList ++ normalizedHash
    | .flat => "fixed:".toList ++ normalizedHash
    | .nar => "fixed:r:".toList ++ normalizedHash
    | .git => "fixed:git:".toList ++ normalizedHash
    | .other other => other ++ ':' :: normalizedHash

end Nix
