import ProjectCache.Core.Nix

namespace Narinfo

open Textual Nix

structure NarInfo where
  storePath : Text
  url : Text
  compression : Text
  narHash : NixHash
  narSize : UInt64
  references : List Text
  deriver : Option Text
  signatures : List Text
  ca : Option NixContentAddress
  deriving DecidableEq

inductive ParseNarInfoError where
  | invalidLine (line : Text)
  | duplicateField (field : Text)
  | missingField (field : Text)
  | invalidNarSize (value : Text)
  deriving DecidableEq, Repr

structure Slots where
  storePath : Option Text := none
  url : Option Text := none
  compression : Option Text := none
  narHash : Option NixHash := none
  narSize : Option UInt64 := none
  references : Option (List Text) := none
  deriver : Option Text := none
  signatures : List Text := []
  ca : Option NixContentAddress := none
  deriving DecidableEq

def setOnce {T : Type} (slot : Option T) (value : T) (fieldName : Text) :
    Except ParseNarInfoError (Option T) :=
  if slot.isSome then .error (.duplicateField fieldName) else .ok (some value)

def parseReferences (storeDir : StoreDir) (value : Text) : List Text :=
  if trim value = [] then [] else (splitWhitespace value).map storeDir.expandDisplayPath

def parseLine (storeDir : StoreDir) (f : Slots) (line : Text) : Except ParseNarInfoError Slots :=
  if line = [] then .ok f
  else if let some value := stripPrefix "StorePath: ".toList line then do
    let storePath ← setOnce f.storePath value "StorePath".toList
    return { f with storePath }
  else if let some value := stripPrefix "URL: ".toList line then do
    let url ← setOnce f.url value "URL".toList
    return { f with url }
  else if let some value := stripPrefix "Compression: ".toList line then do
    let compression ← setOnce f.compression value "Compression".toList
    return { f with compression }
  else if let some value := stripPrefix "NarHash: ".toList line then do
    let narHash ← setOnce f.narHash (.raw value) "NarHash".toList
    return { f with narHash }
  else if let some value := stripPrefix "NarSize: ".toList line then do
    let parsed ←
      match parseU64 value with
      | some parsed => .ok parsed
      | none => .error (.invalidNarSize value)
    let narSize ← setOnce f.narSize parsed "NarSize".toList
    return { f with narSize }
  else if let some value := stripPrefix "References:".toList line then do
    let references ← setOnce f.references (parseReferences storeDir value) "References".toList
    return { f with references }
  else if let some value := stripPrefix "Deriver: ".toList line then do
    let deriver ← setOnce f.deriver (storeDir.expandDisplayPath value) "Deriver".toList
    return { f with deriver }
  else if let some value := stripPrefix "Sig: ".toList line then
    .ok { f with signatures := f.signatures ++ [value] }
  else if let some value := stripPrefix "CA: ".toList line then do
    let ca ← setOnce f.ca (.raw value) "CA".toList
    return { f with ca }
  else if ':' ∈ line then .ok f
  else .error (.invalidLine line)

def parseLines (storeDir : StoreDir) : Slots → List Text → Except ParseNarInfoError Slots
  | f, [] => .ok f
  | f, line :: rest => (parseLine storeDir f line).bind (fun f => parseLines storeDir f rest)

def require {T : Type} (slot : Option T) (fieldName : Text) : Except ParseNarInfoError T :=
  match slot with
  | some value => .ok value
  | none => .error (.missingField fieldName)

def Slots.finish (f : Slots) : Except ParseNarInfoError NarInfo := do
  let storePath ← require f.storePath "StorePath".toList
  let url ← require f.url "URL".toList
  let compression ← require f.compression "Compression".toList
  let narHash ← require f.narHash "NarHash".toList
  let narSize ← require f.narSize "NarSize".toList
  let references ← require f.references "References".toList
  return { storePath, url, compression, narHash, narSize, references,
           deriver := f.deriver, signatures := f.signatures, ca := f.ca }

def parseNarinfo (input : Text) (storeDir : StoreDir) : Except ParseNarInfoError NarInfo :=
  (parseLines storeDir {} (lines input)).bind Slots.finish

namespace NarInfo

variable [Base64] (n : NarInfo)

def normalizedNarHash : Except NixHashError NormalizedNarHash := n.narHash.normalize

def caNarinfoString : Option Text := n.ca.map NixContentAddress.formatForNarinfo

omit [Base64] in
def sortedReferences : List Text := sortTexts n.references

end NarInfo

structure NarInfoRenderer where
  storeDir : StoreDir

namespace NarInfoRenderer

variable [Base64] (r : NarInfoRenderer)

def referencesLine (n : NarInfo) : Text :=
  "References:".toList ++
    if n.sortedReferences = [] then [' ']
    else n.sortedReferences.flatMap (fun reference => ' ' :: r.storeDir.displayPath reference)

def renderedLines (n : NarInfo) (narHash : NormalizedNarHash) (signatures : List Text) :
    List Text :=
  ["StorePath: ".toList ++ n.storePath, "URL: ".toList ++ n.url,
    "Compression: ".toList ++ n.compression, "NarHash: ".toList ++ narHash.display,
    "NarSize: ".toList ++ decimal n.narSize.toNat, r.referencesLine n] ++
  n.deriver.toList.map (fun deriver => "Deriver: ".toList ++ r.storeDir.displayPath deriver) ++
  (sortTexts signatures).map (fun signature => "Sig: ".toList ++ signature) ++
  n.caNarinfoString.toList.map (fun ca => "CA: ".toList ++ ca)

def renderWithSignatures (n : NarInfo) (signatures : List Text) : Except NixHashError Text := do
  let narHash ← n.normalizedNarHash
  return unlines (r.renderedLines n narHash signatures)

def render (n : NarInfo) : Except NixHashError Text := r.renderWithSignatures n n.signatures

end NarInfoRenderer

variable {s : StoreDir} {f f' : Slots}

theorem setOnce_bind {T U : Type} {slot : Option T} {v : T} {n : Text} {g : Option T → U} {u : U} :
    (setOnce slot v n).bind (fun x => .ok (g x)) = .ok u ↔ slot = none ∧ u = g (some v) := by
  cases slot <;> simp [setOnce, Except.bind, eq_comm]

inductive LineStep (s : StoreDir) (f : Slots) : Text → Slots → Prop where
  | blank : LineStep s f [] f
  | storePath (v : Text) : f.storePath = none →
      LineStep s f ("StorePath: ".toList ++ v) { f with storePath := some v }
  | url (v : Text) : f.url = none → LineStep s f ("URL: ".toList ++ v) { f with url := some v }
  | compression (v : Text) : f.compression = none →
      LineStep s f ("Compression: ".toList ++ v) { f with compression := some v }
  | narHash (v : Text) : f.narHash = none →
      LineStep s f ("NarHash: ".toList ++ v) { f with narHash := some (.raw v) }
  | narSize (v : Text) (n : UInt64) : parseU64 v = some n → f.narSize = none →
      LineStep s f ("NarSize: ".toList ++ v) { f with narSize := some n }
  | references (v : Text) : f.references = none →
      LineStep s f ("References:".toList ++ v) { f with references := some (parseReferences s v) }
  | deriver (v : Text) : f.deriver = none →
      LineStep s f ("Deriver: ".toList ++ v) { f with deriver := some (s.expandDisplayPath v) }
  | sig (v : Text) :
      LineStep s f ("Sig: ".toList ++ v) { f with signatures := f.signatures ++ [v] }
  | ca (v : Text) : f.ca = none →
      LineStep s f ("CA: ".toList ++ v) { f with ca := some (.raw v) }
  | unknown (line : Text) : stripPrefix "Sig: ".toList line = none → LineStep s f line f

theorem parseLine_step {line : Text} (h : parseLine s f line = .ok f') : LineStep s f line f' := by
  unfold parseLine at h
  split at h
  · rename_i hl
    cases h
    exact hl ▸ .blank
  split at h
  · rename_i v hv
    obtain ⟨hn, rfl⟩ := setOnce_bind.mp h
    exact stripPrefix_eq_some.mp hv ▸ .storePath v hn
  split at h
  · rename_i v hv
    obtain ⟨hn, rfl⟩ := setOnce_bind.mp h
    exact stripPrefix_eq_some.mp hv ▸ .url v hn
  split at h
  · rename_i v hv
    obtain ⟨hn, rfl⟩ := setOnce_bind.mp h
    exact stripPrefix_eq_some.mp hv ▸ .compression v hn
  split at h
  · rename_i v hv
    obtain ⟨hn, rfl⟩ := setOnce_bind.mp h
    exact stripPrefix_eq_some.mp hv ▸ .narHash v hn
  split at h
  · rename_i v hv
    cases hp : parseU64 v with
    | none => simp [hp, bind, Except.bind] at h
    | some n =>
      rw [hp] at h
      obtain ⟨hn, rfl⟩ := setOnce_bind.mp h
      exact stripPrefix_eq_some.mp hv ▸ .narSize v n hp hn
  split at h
  · rename_i v hv
    obtain ⟨hn, rfl⟩ := setOnce_bind.mp h
    exact stripPrefix_eq_some.mp hv ▸ .references v hn
  split at h
  · rename_i v hv
    obtain ⟨hn, rfl⟩ := setOnce_bind.mp h
    exact stripPrefix_eq_some.mp hv ▸ .deriver v hn
  split at h
  · rename_i v hv
    cases h
    exact stripPrefix_eq_some.mp hv ▸ .sig v
  rename_i hsig
  split at h
  · rename_i v hv
    obtain ⟨hn, rfl⟩ := setOnce_bind.mp h
    exact stripPrefix_eq_some.mp hv ▸ .ca v hn
  split at h
  · cases h
    exact .unknown line (Option.eq_none_iff_forall_ne_some.mpr hsig)
  · cases h

structure Slots.Extends (f f' : Slots) : Prop where
  storePath : ∀ x, f.storePath = some x → f'.storePath = some x
  references : ∀ x, f.references = some x → f'.references = some x
  deriver : ∀ x, f.deriver = some x → f'.deriver = some x
  ca : ∀ x, f.ca = some x → f'.ca = some x

theorem LineStep.extends {line : Text} (h : LineStep s f line f') : f.Extends f' := by
  cases h <;> constructor <;> simp_all

theorem LineStep.signatures {line : Text} (h : LineStep s f line f') :
    f'.signatures = f.signatures ++ (stripPrefix "Sig: ".toList line).toList := by
  cases h with
  | sig v => rfl
  | unknown line hs => rw [hs, Option.toList_none, List.append_nil]
  | _ => simp [stripPrefix]

@[simp] theorem parseLines_nil : parseLines s f [] = .ok f := rfl

theorem parseLines_cons {f₁ : Slots} {line : Text} (rest : List Text)
    (h : parseLine s f line = .ok f₁) : parseLines s f (line :: rest) = parseLines s f₁ rest := by
  simp only [parseLines, h, Except.bind]

theorem parseLines_cons_ok {line : Text} {rest : List Text}
    (h : parseLines s f (line :: rest) = .ok f') :
    ∃ f₁, parseLine s f line = .ok f₁ ∧ parseLines s f₁ rest = .ok f' := by
  cases hl : parseLine s f line with
  | error e => simp [parseLines, hl, Except.bind] at h
  | ok f₁ => exact ⟨f₁, rfl, by rwa [parseLines_cons rest hl] at h⟩

theorem Slots.Extends.refl (f : Slots) : f.Extends f := by
  constructor <;> simp

theorem Slots.Extends.trans {f₁ f₂ f₃ : Slots} (h : f₁.Extends f₂) (h' : f₂.Extends f₃) :
    f₁.Extends f₃ :=
  ⟨fun x hx => h'.storePath x (h.storePath x hx), fun x hx => h'.references x (h.references x hx),
    fun x hx => h'.deriver x (h.deriver x hx), fun x hx => h'.ca x (h.ca x hx)⟩

theorem parseLines_extends {ls : List Text} (h : parseLines s f ls = .ok f') : f.Extends f' := by
  induction ls generalizing f with
  | nil =>
    cases h
    exact .refl _
  | cons l ls ih =>
    obtain ⟨f₁, hl, hls⟩ := parseLines_cons_ok h
    exact (parseLine_step hl).extends.trans (ih hls)

theorem parseLines_signatures {ls : List Text} (h : parseLines s f ls = .ok f') :
    f'.signatures = f.signatures ++ ls.filterMap (stripPrefix "Sig: ".toList) := by
  induction ls generalizing f with
  | nil =>
    cases h
    simp
  | cons l ls ih =>
    obtain ⟨f₁, hl, hls⟩ := parseLines_cons_ok h
    rw [ih hls, (parseLine_step hl).signatures, List.append_assoc, List.filterMap_cons]
    cases stripPrefix "Sig: ".toList l <;> rfl

theorem parseLines_sigs (sigs : List Text) (rest : List Text) :
    parseLines s f (sigs.map ("Sig: ".toList ++ ·) ++ rest) =
      parseLines s { f with signatures := f.signatures ++ sigs } rest := by
  induction sigs generalizing f with
  | nil => simp
  | cons x xs ih =>
    rw [List.map_cons, List.cons_append]
    have hx : parseLine s f ("Sig: ".toList ++ x) =
        .ok { f with signatures := f.signatures ++ [x] } := rfl
    rw [parseLines_cons _ hx, ih, List.append_assoc, List.singleton_append]

theorem parseReferences_eq (value : Text) :
    parseReferences s value = (splitWhitespace value).map s.expandDisplayPath := by
  unfold parseReferences
  split
  · rename_i h
    rw [splitWhitespace_of_trim_eq_nil h, List.map_nil]
  · rfl

theorem finish_ok {m : NarInfo} (h : f.finish = .ok m) :
    f.storePath = some m.storePath ∧ f.references = some m.references ∧ m.deriver = f.deriver ∧
      m.signatures = f.signatures ∧ m.ca = f.ca := by
  obtain ⟨a, b, c, d, e, r, _, _, _⟩ := f
  cases a <;> cases b <;> cases c <;> cases d <;> cases e <;> cases r <;> cases h
  simp

end Narinfo
