import ProjectCache.Core.Signing
import ProjectCache.Core.Validation

namespace RoundTrip

open Textual Nix DepotPath Narinfo Validation Signing

def ShownAs (s : StoreDir) (path rest : Text) : Prop :=
  path = s.path ++ '/' :: rest ∧ rest.head? ≠ some '/'

def PlainReference (s : StoreDir) (reference : Text) : Prop :=
  ∃ rest, ShownAs s reference rest ∧ ∀ c ∈ rest, isWhitespace c = false

def PlainDeriver (s : StoreDir) (deriver : Text) : Prop :=
  ∃ rest, ShownAs s deriver rest ∧ SingleLine rest

section Lines

variable {s : StoreDir} {n m : NarInfo}

theorem ShownAs.displayPath {path rest : Text} (h : ShownAs s path rest) :
    s.displayPath path = rest := by
  rw [h.1, StoreDir.displayPath_append]

theorem ShownAs.expand {path rest : Text} (h : ShownAs s path rest) :
    s.expandDisplayPath (s.displayPath path) = path := by
  rw [h.displayPath, s.expandDisplayPath_of_head h.2, h.1]

theorem PathInside.cases {path : Text} (h : PathInside s path) :
    path = s.path ∨ ∃ rest, path = s.path ++ '/' :: rest ∧ rest ≠ [] := by
  rcases s.containsPath_iff.mp h.1 with rfl | ⟨rest, rfl⟩
  · exact Or.inl rfl
  · refine Or.inr ⟨rest, rfl, ?_⟩
    rintro rfl
    obtain ⟨hash, hh⟩ := h.2
    exact StorePathHash.parseFromStorePath_afterLast_ne_nil hh (afterLast_append (by simp) _)

theorem displayPath_expand_of_word {w : Text} (hw : ∀ c ∈ w, isWhitespace c = false) :
    ∀ c ∈ s.displayPath (s.expandDisplayPath w), isWhitespace c = false := by
  unfold StoreDir.expandDisplayPath
  split
  · rename_i hc
    rcases s.containsPath_iff.mp hc with rfl | ⟨rest, rfl⟩
    · simp
    · rw [StoreDir.displayPath_append]
      exact fun c hc => hw c (by simp [hc])
  · rw [StoreDir.displayPath_append]
    exact fun c hc => hw c ((List.dropWhile_suffix _).subset hc)

theorem expand_display_length_le {path : Text} (h : s.displayPath path ≠ [])
    (hp : PathInside s path) :
    (s.expandDisplayPath (s.displayPath path)).length ≤ path.length := by
  rcases PathInside.cases hp with rfl | ⟨rest, rfl, -⟩
  · simp at h
  · have := s.expandDisplayPath_length_le rest
    simp only [StoreDir.displayPath_append, List.length_append, List.length_cons] at this ⊢
    omega

theorem shownAs_of_length {path : Text} (h : s.displayPath path ≠ []) (hp : PathInside s path)
    (hl : (s.expandDisplayPath (s.displayPath path)).length = path.length) :
    ShownAs s path (s.displayPath path) := by
  rcases PathInside.cases hp with rfl | ⟨rest, rfl, -⟩
  · simp at h
  · rw [StoreDir.displayPath_append] at hl ⊢
    refine ⟨rfl, fun hh => ?_⟩
    have := s.expandDisplayPath_head_length_lt hh
    simp only [List.length_append, List.length_cons] at hl
    omega

def referencesValue (s : StoreDir) (rs : List Text) : Text :=
  if rs = [] then [' '] else rs.flatMap (fun r => ' ' :: s.displayPath r)

theorem referencesLine_eq (n : NarInfo) :
    (NarInfoRenderer.mk s).referencesLine n =
      "References:".toList ++ referencesValue s n.sortedReferences := rfl

theorem splitWhitespace_referencesValue {rs : List Text}
    (h : ∀ r ∈ rs, ∀ c ∈ s.displayPath r, isWhitespace c = false) :
    splitWhitespace (referencesValue s rs) = (rs.map s.displayPath).filter (· ≠ []) := by
  have hw : splitWhitespace (referencesValue s rs) =
      rs.flatMap (fun r => splitWhitespace (s.displayPath r)) := by
    unfold referencesValue
    split
    · rename_i he
      subst he
      exact (by decide : splitWhitespace [' '] = [])
    · simpa using splitWhitespace_append_flatMap s.displayPath rs []
  rw [hw]
  clear hw
  induction rs with
  | nil => rfl
  | cons r rs ih =>
    rw [List.flatMap_cons, List.map_cons, ih (fun x hx => h x (by simp [hx]))]
    by_cases hd : s.displayPath r = []
    · simp [hd]
    · rw [splitWhitespace_word (h r (by simp)) hd]
      simp [hd]

theorem singleLine_referencesValue {rs : List Text}
    (h : ∀ r ∈ rs, ∀ c ∈ s.displayPath r, isWhitespace c = false) :
    SingleLine (referencesValue s rs) := by
  have hc : ∀ c ∈ referencesValue s rs, c = ' ' ∨ isWhitespace c = false := by
    intro c hc
    unfold referencesValue at hc
    split at hc
    · simpa using Or.inl hc
    · simp only [List.mem_flatMap, List.mem_cons] at hc
      obtain ⟨r, hr, rfl | hc⟩ := hc
      · exact Or.inl rfl
      · exact Or.inr (h r hr c hc)
  apply singleLine_of_forall
  intro c hm
  have hb : isWhitespace '\n' = true ∧ isWhitespace '\r' = true := by decide
  rcases hc c hm with rfl | hw
  · decide
  · refine ⟨?_, ?_⟩ <;> rintro rfl <;> simp_all

theorem ShownAs.displayPath_ne_nil {path rest : Text} (h : ShownAs s path rest)
    (hp : PathInside s path) : s.displayPath path ≠ [] := by
  intro he
  rw [h.displayPath] at he
  rcases PathInside.cases hp with hd | ⟨rest', hd, hne⟩
  · have := congrArg List.length (hd ▸ h.1)
    simp at this
  · rw [h.1, he] at hd
    simp_all

theorem parseReferences_value {rs : List Text} (hne : ∀ r ∈ rs, s.displayPath r ≠ [])
    (hp : ∀ r ∈ rs, PlainReference s r) : parseReferences s (referencesValue s rs) = rs := by
  have hw : ∀ r ∈ rs, ∀ c ∈ s.displayPath r, isWhitespace c = false := by
    intro r hr
    obtain ⟨rest, hs, hc⟩ := hp r hr
    rwa [hs.displayPath]
  rw [parseReferences_eq, splitWhitespace_referencesValue hw, List.filter_eq_self.mpr, List.map_map]
  · rw [List.map_congr_left (g := id), List.map_id]
    intro r hr
    obtain ⟨rest, hs, -⟩ := hp r hr
    exact hs.expand
  · simpa using hne

theorem plainReference_of_parse {rs : List Text} (h : ∀ r ∈ rs, PathInside s r)
    (hp : (parseReferences s (firstPiece (referencesValue s rs))).Perm rs) :
    ∀ r ∈ rs, PlainReference s r := by
  have hw : ∀ r ∈ rs, ∀ c ∈ s.displayPath r, isWhitespace c = false := by
    intro r hr
    obtain ⟨w, hw, rfl⟩ := List.mem_map.mp (parseReferences_eq (s := s) _ ▸ hp.symm.subset hr)
    exact displayPath_expand_of_word (not_whitespace_of_mem_splitWhitespace hw)
  rw [firstPiece_singleLine (singleLine_referencesValue hw), parseReferences_eq,
    splitWhitespace_referencesValue hw] at hp
  have hne : ∀ r ∈ rs, s.displayPath r ≠ [] := by
    have hl := hp.length_eq
    have hm : (rs.map s.displayPath).length = rs.length := List.length_map _
    rw [List.length_map, ← hm, List.length_filter_eq_length_iff] at hl
    simpa using hl
  rw [List.filter_eq_self.mpr (by simpa using hne), List.map_map] at hp
  have hl := length_eq_of_map_perm hp (fun r hr => expand_display_length_le (hne r hr) (h r hr))
  exact fun r hr => ⟨_, shownAs_of_length (hne r hr) (h r hr) (hl r hr), hw r hr⟩

theorem singleLine_literal : ∀ p ∈ ["StorePath: ", "URL: ", "Compression: ", "NarHash: ",
    "NarSize: ", "References:", "Deriver: ", "Sig: ", "CA: "].map String.toList, SingleLine p := by
  unfold SingleLine
  decide

theorem singleLine_field {p : Text} (v : Text)
    (hp : p ∈ ["StorePath: ", "URL: ", "Compression: ", "NarHash: ", "NarSize: ", "References:",
      "Deriver: ", "Sig: ", "CA: "].map String.toList) : SingleLine (p ++ v) ↔ SingleLine v :=
  singleLine_append (singleLine_literal p hp)

theorem alphabet_ne_newline {c : Char} (h : c ∈ nixBase32Alphabet) : c ≠ '\n' ∧ c ≠ '\r' := by
  have hb : nixBase32Alphabet.all (fun c => c ≠ '\n' ∧ c ≠ '\r') = true := by decide
  simpa using List.all_eq_true.mp hb c h

theorem singleLine_digest (narHash : NormalizedNarHash) : SingleLine narHash.digest :=
  singleLine_of_forall (fun c hc => alphabet_ne_newline (narHash.alphabet c hc))

theorem singleLine_display (narHash : NormalizedNarHash) : SingleLine narHash.display := by
  have hp : SingleLine "sha256:".toList := by
    unfold SingleLine
    decide
  rw [NormalizedNarHash.display_eq, singleLine_append hp]
  exact singleLine_digest narHash

theorem singleLine_expectedUrl (narHash : NormalizedNarHash) (c : NarCompression) :
    SingleLine (expectedUrl narHash c) := by
  have hp : "nar/".toList.all (fun d => d ≠ '\n' ∧ d ≠ '\r') = true := by decide
  have hs : c.fileSuffix.all (fun d => d ≠ '\n' ∧ d ≠ '\r') = true := by cases c <;> decide
  apply singleLine_of_forall
  intro d hd
  simp only [expectedUrl, List.mem_append] at hd
  rcases hd with (hd | hd) | hd
  · simpa using List.all_eq_true.mp hp d hd
  · exact alphabet_ne_newline (narHash.alphabet d hd)
  · simpa using List.all_eq_true.mp hs d hd

theorem singleLine_compression {value : Text} {c : NarCompression}
    (h : NarCompression.fromNarinfoCompression value = some c) : SingleLine value := by
  have hall : ∀ v ∈ ["", "none", "zstd", "xz", "bzip2", "bz2"].map String.toList,
      SingleLine v := by
    unfold SingleLine
    decide
  exact hall value (NarCompression.fromNarinfoCompression_mem h)

theorem singleLine_decimal (k : Nat) : SingleLine (decimal k) := by
  apply singleLine_of_forall
  intro c hc
  have hd : c.isDigit = true := Nat.isDigit_of_mem_toDigits (by decide) (by decide) hc
  refine ⟨?_, ?_⟩ <;> rintro rfl <;> exact absurd hd (by decide)

def earlyLines (n : NarInfo) (narHash : NormalizedNarHash) : List Text :=
  ["StorePath: ".toList ++ n.storePath, "URL: ".toList ++ n.url,
    "Compression: ".toList ++ n.compression, "NarHash: ".toList ++ narHash.display,
    "NarSize: ".toList ++ decimal n.narSize.toNat]

def earlySlots (n : NarInfo) (narHash : NormalizedNarHash) : Slots :=
  { storePath := some n.storePath
    url := some n.url
    compression := some n.compression
    narHash := some (.raw narHash.display)
    narSize := some n.narSize }

theorem parseLines_early (narHash : NormalizedNarHash) (rest : List Text) :
    parseLines s {} (earlyLines n narHash ++ rest) = parseLines s (earlySlots n narHash) rest := by
  have hsize : parseLine s { earlySlots n narHash with narSize := none }
      ("NarSize: ".toList ++ decimal n.narSize.toNat) = .ok (earlySlots n narHash) := by
    simp [parseLine, stripPrefix, parseU64_decimal, setOnce, earlySlots, bind, Except.bind, pure,
      Except.pure]
  simp only [earlyLines, List.cons_append, List.nil_append]
  rw [parseLines_cons _ rfl, parseLines_cons _ rfl, parseLines_cons _ rfl, parseLines_cons _ rfl]
  exact parseLines_cons _ hsize

theorem parseLines_references {f : Slots} (hf : f.references = none) (v : Text)
    (rest : List Text) : parseLines s f (("References:".toList ++ v) :: rest) =
      parseLines s { f with references := some (parseReferences s v) } rest := by
  apply parseLines_cons
  have hl : parseLine s f ("References:".toList ++ v) =
      (setOnce f.references (parseReferences s v) "References".toList).bind
        (fun references => .ok { f with references }) := rfl
  rw [hl, hf]
  rfl

theorem parseLines_deriver {f : Slots} (hf : f.deriver = none) (v : Text) (rest : List Text) :
    parseLines s f (("Deriver: ".toList ++ v) :: rest) =
      parseLines s { f with deriver := some (s.expandDisplayPath v) } rest := by
  apply parseLines_cons
  have hl : parseLine s f ("Deriver: ".toList ++ v) =
      (setOnce f.deriver (s.expandDisplayPath v) "Deriver".toList).bind
        (fun deriver => .ok { f with deriver }) := rfl
  rw [hl, hf]
  rfl

theorem parseLines_ca {f : Slots} (hf : f.ca = none) (v : Text) (rest : List Text) :
    parseLines s f (("CA: ".toList ++ v) :: rest) =
      parseLines s { f with ca := some (.raw v) } rest := by
  apply parseLines_cons
  have hl : parseLine s f ("CA: ".toList ++ v) =
      (setOnce f.ca (.raw v) "CA".toList).bind (fun ca => .ok { f with ca }) := rfl
  rw [hl, hf]
  rfl

theorem parseNarinfo_ok {text : Text} (h : parseNarinfo text s = .ok m) :
    ∃ f, parseLines s {} (lines text) = .ok f ∧ f.storePath = some m.storePath ∧
      f.references = some m.references ∧ m.deriver = f.deriver ∧ m.signatures = f.signatures ∧
      m.ca = f.ca := by
  cases hf : parseLines s {} (lines text) with
  | error e => simp [parseNarinfo, hf, Except.bind] at h
  | ok f =>
    simp only [parseNarinfo, hf, Except.bind] at h
    exact ⟨f, rfl, finish_ok h⟩

theorem pieces_field {p : Text} (hp : p ∈ ["StorePath: ", "URL: ", "Compression: ", "NarHash: ",
    "NarSize: ", "References:", "Deriver: ", "Sig: ", "CA: "].map String.toList) (v : Text) :
    ∃ rest, pieces (p ++ v) = (p ++ firstPiece v) :: rest := by
  obtain ⟨rest, hr⟩ := pieces_head (p ++ v)
  exact ⟨rest, by rw [hr, firstPiece_append (singleLine_literal p hp)]⟩

theorem storePath_of_parse {sp : Text} {tail : List Text} {f : Slots}
    (h : parseLines s {} ((("StorePath: ".toList ++ sp) :: tail).flatMap pieces) = .ok f)
    (hf : f.storePath = some sp) : SingleLine sp := by
  obtain ⟨rest, hr⟩ := pieces_field (p := "StorePath: ".toList) (by simp) sp
  rw [List.flatMap_cons, hr, List.cons_append, parseLines_cons _ rfl] at h
  have := (parseLines_extends h).storePath (firstPiece sp) rfl
  rw [hf, Option.some.injEq] at this
  exact firstPiece_eq_self.mp this.symm

theorem references_of_parse {f f' : Slots} (hf : f.references = none) {rs refs : List Text}
    {tail : List Text} (h : parseLines s f
      ((("References:".toList ++ referencesValue s rs) :: tail).flatMap pieces) = .ok f')
    (hf' : f'.references = some refs) :
    refs = parseReferences s (firstPiece (referencesValue s rs)) := by
  obtain ⟨rest, hr⟩ := pieces_field (p := "References:".toList) (by simp) (referencesValue s rs)
  rw [List.flatMap_cons, hr, List.cons_append, parseLines_references hf] at h
  have := (parseLines_extends h).references _ rfl
  rw [hf', Option.some.injEq] at this
  exact this

theorem deriver_of_parse {f f' : Slots} (hf : f.deriver = none) {d : Text}
    (hi : PathInside s d) {tail : List Text} (h : parseLines s f
      ((("Deriver: ".toList ++ s.displayPath d) :: tail).flatMap pieces) = .ok f')
    (hf' : f'.deriver = some d) : PlainDeriver s d := by
  obtain ⟨rest, hr⟩ := pieces_field (p := "Deriver: ".toList) (by simp) (s.displayPath d)
  rw [List.flatMap_cons, hr, List.cons_append, parseLines_deriver hf] at h
  have hd := (parseLines_extends h).deriver _ rfl
  rw [hf', Option.some.injEq] at hd
  have hle := s.expandDisplayPath_length_le (firstPiece (s.displayPath d))
  have hfirst := firstPiece_length_le (s.displayPath d)
  rw [← hd] at hle
  rcases PathInside.cases hi with he | ⟨v, he, -⟩
  · rw [he, StoreDir.displayPath_self] at hd
    have hn : s.expandDisplayPath (firstPiece []) = s.path ++ ['/'] :=
      s.expandDisplayPath_of_head (by decide)
    have := congrArg List.length (hd.trans hn)
    simp at this
  · rw [he, StoreDir.displayPath_append] at hd hfirst
    have hl := congrArg List.length he
    simp only [List.length_append, List.length_cons] at hl
    rw [he, StoreDir.displayPath_append, ← he] at hle
    have hsingle : SingleLine v := singleLine_of_length (by omega)
    refine ⟨v, ⟨he, fun hh => ?_⟩, hsingle⟩
    rw [firstPiece_singleLine hsingle] at hd
    have hlt := s.expandDisplayPath_head_length_lt hh
    have := congrArg List.length hd
    simp only [List.length_append, List.length_cons] at this
    omega

theorem filterMap_sig (xs : List Text) :
    (xs.map ("Sig: ".toList ++ ·)).filterMap (stripPrefix "Sig: ".toList) = xs := by
  have hs : stripPrefix "Sig: ".toList ∘ ("Sig: ".toList ++ ·) = some :=
    funext (fun x => stripPrefix_append _ x)
  rw [List.filterMap_map, hs, List.filterMap_some]

theorem signatures_of_parse {f f' : Slots} (hf : f.signatures = []) {sigs tail : List Text}
    (h : parseLines s f ((sigs.map ("Sig: ".toList ++ ·)).flatMap pieces ++ tail) = .ok f')
    (hp : f'.signatures.Perm sigs) : ∀ x ∈ sigs, SingleLine x := by
  have hall := parseLines_signatures h
  rw [hf, List.nil_append] at hall
  have hfirst : (sigs.map ("Sig: ".toList ++ ·)).map firstPiece =
      (sigs.map firstPiece).map ("Sig: ".toList ++ ·) := by
    rw [List.map_map, List.map_map]
    apply List.map_congr_left
    intro x _
    exact firstPiece_append (singleLine_literal _ (by simp)) x
  have hsub : (sigs.map firstPiece).Sublist f'.signatures := by
    have := (map_firstPiece_sublist (sigs.map ("Sig: ".toList ++ ·))).filterMap
      (stripPrefix "Sig: ".toList)
    rw [hfirst, filterMap_sig] at this
    rw [hall, List.filterMap_append]
    exact this.trans (List.sublist_append_left _ _)
  have heq : sigs.map firstPiece = f'.signatures :=
    hsub.eq_of_length (by rw [List.length_map, hp.length_eq])
  have hl := length_eq_of_map_perm (heq ▸ hp) (fun x _ => firstPiece_length_le x)
  exact fun x hx => singleLine_of_length (hl x hx)

end Lines

section Codec

variable [Base64] {s : StoreDir} {n m : NarInfo}

structure Plain (s : StoreDir) (n : NarInfo) : Prop where
  storePath : SingleLine n.storePath
  references : ∀ r ∈ n.references, PlainReference s r
  deriver : ∀ d ∈ n.deriver, PlainDeriver s d
  ca : ∀ c ∈ n.caNarinfoString, SingleLine c

def laterLines (s : StoreDir) (n : NarInfo) (signatures : List Text) : List Text :=
  n.deriver.toList.map (fun deriver => "Deriver: ".toList ++ s.displayPath deriver) ++
    ((sortTexts signatures).map ("Sig: ".toList ++ ·) ++
      n.caNarinfoString.toList.map ("CA: ".toList ++ ·))

def servedCopy (n : NarInfo) (narHash : NormalizedNarHash) (signatures : List Text) : NarInfo :=
  { n with
    narHash := .raw narHash.display
    references := n.sortedReferences
    signatures := sortTexts signatures
    ca := n.caNarinfoString.map .raw }

theorem renderedLines_eq (narHash : NormalizedNarHash) (signatures : List Text) :
    (NarInfoRenderer.mk s).renderedLines n narHash signatures =
      earlyLines n narHash ++ ("References:".toList ++ referencesValue s n.sortedReferences) ::
        laterLines s n signatures := by
  simp [NarInfoRenderer.renderedLines, earlyLines, laterLines, referencesLine_eq]

theorem singleLine_url {h : StorePathHash} (ha : Accepted s n h) :
    SingleLine n.url ∧ SingleLine n.compression := by
  obtain ⟨c, hc, narHash, -, -, hu⟩ := ha.compression
  exact ⟨hu ▸ singleLine_expectedUrl narHash c, singleLine_compression hc⟩

omit [Base64] in
theorem singleLine_early (hu : SingleLine n.url ∧ SingleLine n.compression)
    {narHash : NormalizedNarHash} (hp : SingleLine n.storePath) :
    ∀ l ∈ earlyLines n narHash, SingleLine l := by
  simp only [earlyLines, List.mem_cons, List.not_mem_nil, or_false, forall_eq_or_imp, forall_eq]
  refine ⟨?_, ?_, ?_, ?_, ?_⟩ <;> rw [singleLine_field _ (by simp)]
  · exact hp
  · exact hu.1
  · exact hu.2
  · exact singleLine_display narHash
  · exact singleLine_decimal _

theorem singleLine_later {signatures : List Text} (hp : Plain s n)
    (hs : ∀ x ∈ signatures, SingleLine x) : ∀ l ∈ laterLines s n signatures, SingleLine l := by
  intro l hl
  simp only [laterLines, List.mem_append, List.mem_map, Option.mem_toList] at hl
  rcases hl with ⟨d, hd, rfl⟩ | ⟨x, hx, rfl⟩ | ⟨c, hc, rfl⟩ <;> rw [singleLine_field _ (by simp)]
  · obtain ⟨rest, hrest, hsingle⟩ := hp.deriver d hd
    rwa [hrest.displayPath]
  · exact hs x ((sortTexts_perm signatures).subset hx)
  · exact hp.ca c hc

theorem parseLines_later {f : Slots} (hd : f.deriver = none) (hc : f.ca = none)
    (signatures : List Text) (hp : Plain s n) :
    parseLines s f (laterLines s n signatures) =
      .ok { f with
        deriver := n.deriver
        signatures := f.signatures ++ sortTexts signatures
        ca := n.caNarinfoString.map .raw } := by
  obtain ⟨_, _, _, _, _, _, der, _, ca⟩ := f
  subst hd hc
  have hder (g : Slots) (hg : g.deriver = none) :
      parseLines s g (laterLines s n signatures) =
        parseLines s { g with deriver := n.deriver } ((sortTexts signatures).map
          ("Sig: ".toList ++ ·) ++ n.caNarinfoString.toList.map ("CA: ".toList ++ ·)) := by
    cases hn : n.deriver with
    | none =>
      rw [laterLines, hn, Option.toList_none, List.map_nil, List.nil_append, ← hg]
    | some d =>
      obtain ⟨rest, hrest, -⟩ := hp.deriver d hn
      simp only [laterLines, hn, Option.toList_some, List.map_cons, List.map_nil,
        List.cons_append, List.nil_append]
      rw [parseLines_deriver hg, hrest.expand]
  rw [hder _ rfl, parseLines_sigs]
  cases hn : n.caNarinfoString with
  | none =>
    simp only [Option.toList_none, List.map_nil, Option.map_none]
    rfl
  | some c =>
    simp only [Option.toList_some, List.map_cons, List.map_nil, Option.map_some]
    exact parseLines_ca rfl c []

theorem parse_rendered (hu : SingleLine n.url ∧ SingleLine n.compression) (hp : Plain s n)
    (hne : ∀ r ∈ n.references, s.displayPath r ≠ [])
    {signatures : List Text} (hs : ∀ x ∈ signatures, SingleLine x)
    (narHash : NormalizedNarHash) (text : Text)
    (ht : text = unlines ((NarInfoRenderer.mk s).renderedLines n narHash signatures)) :
    lines text = (NarInfoRenderer.mk s).renderedLines n narHash signatures ∧
      parseNarinfo text s = .ok (servedCopy n narHash signatures) := by
  have hsub : ∀ r ∈ n.sortedReferences, r ∈ n.references := fun r hr =>
    (sortTexts_perm n.references).subset hr
  have hpr : ∀ r ∈ n.sortedReferences, PlainReference s r := fun r hr =>
    hp.references r (hsub r hr)
  have hword : ∀ r ∈ n.sortedReferences, ∀ c ∈ s.displayPath r, isWhitespace c = false := by
    intro r hr
    obtain ⟨rest, hrest, hc⟩ := hpr r hr
    rwa [hrest.displayPath]
  have hlines : lines text = (NarInfoRenderer.mk s).renderedLines n narHash signatures := by
    rw [ht, lines_unlines, renderedLines_eq]
    apply flatMap_pieces
    intro l hl
    rw [List.mem_append, List.mem_cons] at hl
    rcases hl with hl | rfl | hl
    · exact singleLine_early hu hp.storePath l hl
    · rw [singleLine_field _ (by simp)]
      exact singleLine_referencesValue hword
    · exact singleLine_later hp hs l hl
  refine ⟨hlines, ?_⟩
  rw [parseNarinfo, hlines, renderedLines_eq, parseLines_early, parseLines_references rfl,
    parseReferences_value (fun r hr => hne r (hsub r hr)) hpr,
    parseLines_later rfl rfl signatures hp]
  rfl

theorem renderWithSignatures_eq {narHash : NormalizedNarHash}
    (hn : n.normalizedNarHash = .ok narHash) (signatures : List Text) :
    (NarInfoRenderer.mk s).renderWithSignatures n signatures =
      .ok (unlines ((NarInfoRenderer.mk s).renderedLines n narHash signatures)) := by
  rw [NarInfoRenderer.renderWithSignatures, hn]
  rfl

theorem servedCopy_caNarinfoString (n : NarInfo) (narHash : NormalizedNarHash)
    (signatures : List Text) :
    (servedCopy n narHash signatures).caNarinfoString = n.caNarinfoString := by
  simp only [NarInfo.caNarinfoString, servedCopy, Option.map_map]
  exact congrFun (congrArg Option.map rfl) _

theorem ca_of_parse {f f' : Slots} (hf : f.ca = none) {c : Text}
    (h : parseLines s f (["CA: ".toList ++ c].flatMap pieces) = .ok f')
    (hf' : f'.ca.map NixContentAddress.formatForNarinfo = some c) : SingleLine c := by
  obtain ⟨rest, hr⟩ := pieces_field (p := "CA: ".toList) (by simp) c
  rw [List.flatMap_cons, hr, List.cons_append, parseLines_ca hf] at h
  have hca := (parseLines_extends h).ca (.raw (firstPiece c)) rfl
  rw [hca] at hf'
  exact firstPiece_eq_self.mp (Option.some.inj hf')

theorem later_of_parse {f f' : Slots} (hfd : f.deriver = none) (hfs : f.signatures = [])
    (hfc : f.ca = none) (hin : ∀ d ∈ n.deriver, PathInside s d) {signatures : List Text}
    (h : parseLines s f ((laterLines s n signatures).flatMap pieces) = .ok f')
    (hd : f'.deriver = n.deriver) (hs : f'.signatures.Perm signatures)
    (hc : f'.ca.map NixContentAddress.formatForNarinfo = n.caNarinfoString) :
    (∀ d ∈ n.deriver, PlainDeriver s d) ∧ (∀ x ∈ signatures, SingleLine x) ∧
      ∀ c ∈ n.caNarinfoString, SingleLine c := by
  have hderiver : ∀ d ∈ n.deriver, PlainDeriver s d := by
    intro d hn
    rw [Option.mem_def] at hn
    rw [laterLines, hn] at h
    exact deriver_of_parse hfd (hin d hn) h (hd.trans hn)
  rw [laterLines, List.flatMap_append, List.flatMap_append] at h
  have hafter : ∃ g : Slots, g.signatures = [] ∧ g.ca = none ∧
      parseLines s g (((sortTexts signatures).map ("Sig: ".toList ++ ·)).flatMap pieces ++
        (n.caNarinfoString.toList.map ("CA: ".toList ++ ·)).flatMap pieces) = .ok f' := by
    cases hn : n.deriver with
    | none =>
      rw [hn] at h
      exact ⟨f, hfs, hfc, h⟩
    | some d =>
      obtain ⟨rest, hrest, hsingle⟩ := hderiver d hn
      have hline : SingleLine ("Deriver: ".toList ++ s.displayPath d) := by
        rwa [singleLine_field _ (by simp), hrest.displayPath]
      rw [hn, Option.toList_some, List.map_singleton, List.flatMap_singleton,
        pieces_singleLine hline, List.singleton_append, parseLines_deriver hfd] at h
      exact ⟨{ f with deriver := some (s.expandDisplayPath (s.displayPath d)) }, hfs, hfc, h⟩
  obtain ⟨g, hgs, hgc, hg⟩ := hafter
  have hsigs : ∀ x ∈ sortTexts signatures, SingleLine x :=
    signatures_of_parse hgs hg (hs.trans (sortTexts_perm signatures).symm)
  have hlines : ∀ l ∈ (sortTexts signatures).map ("Sig: ".toList ++ ·), SingleLine l := by
    intro l hl
    obtain ⟨x, hx, rfl⟩ := List.mem_map.mp hl
    exact (singleLine_field _ (by simp)).mpr (hsigs x hx)
  refine ⟨hderiver, fun x hx => hsigs x ((sortTexts_perm signatures).symm.subset hx), ?_⟩
  intro c hn
  rw [Option.mem_def] at hn
  rw [flatMap_pieces hlines, parseLines_sigs, hn] at hg
  exact ca_of_parse (f := { g with signatures := g.signatures ++ sortTexts signatures }) hgc hg
    (hc.trans hn)

variable [Ed25519]

structure FaithfulCopy (signer : NarInfoSigner) (n m : NarInfo) (signatures : List Text) :
    Prop where
  storePath : m.storePath = n.storePath
  url : m.url = n.url
  compression : m.compression = n.compression
  narSize : m.narSize = n.narSize
  deriver : m.deriver = n.deriver
  ca : m.caNarinfoString = n.caNarinfoString
  references : m.references.Perm n.references
  signatures : m.signatures.Perm signatures
  narHash : m.normalizedNarHash = n.normalizedNarHash
  fingerprint : signer.fingerprint m = signer.fingerprint n

def RoundTrips (signer : NarInfoSigner) (n : NarInfo) (signatures : List Text) : Prop :=
  ∃ text m, (NarInfoRenderer.mk signer.storeDir).renderWithSignatures n signatures = .ok text ∧
    parseNarinfo text signer.storeDir = .ok m ∧ FaithfulCopy signer n m signatures ∧
    ∃ narHash, n.normalizedNarHash = .ok narHash ∧
      lines text = (NarInfoRenderer.mk signer.storeDir).renderedLines n narHash signatures

theorem fingerprint_servedCopy {signer : NarInfoSigner} {n : NarInfo}
    {narHash : NormalizedNarHash} (hn : n.normalizedNarHash = .ok narHash)
    (hl : narHash.digest.length = 52) (signatures : List Text) {message : ByteArray}
    (hf : signer.fingerprint n = .ok message) :
    signer.fingerprint (servedCopy n narHash signatures) = .ok message := by
  have hperm : n.sortedReferences.Perm n.references := sortTexts_perm n.references
  obtain ⟨hinside, hrefs, narHash', hn', rfl⟩ := signer.fingerprint_eq_ok.mp hf
  cases hn.symm.trans hn'
  have htext := NarInfoSigner.fingerprintText_congr (a := servedCopy n narHash signatures)
    (b := n) narHash rfl rfl hperm
  exact signer.fingerprint_eq_ok.mpr ⟨hinside, fun r hr => hrefs r (hperm.subset hr), narHash,
    NormalizedNarHash.parseText_display hl, by rw [htext]⟩

theorem roundTrips_of_plain {signer : NarInfoSigner} {n : NarInfo} {h : StorePathHash}
    (ha : Accepted signer.storeDir n h) (hp : Plain signer.storeDir n) {signatures : List Text}
    (hs : ∀ x ∈ signatures, SingleLine x) : RoundTrips signer n signatures := by
  obtain ⟨-, -, narHash, hn, hl, -⟩ := ha.compression
  have hne : ∀ r ∈ n.references, signer.storeDir.displayPath r ≠ [] := by
    intro r hr
    obtain ⟨rest, hrest, -⟩ := hp.references r hr
    exact hrest.displayPath_ne_nil (ha.references r hr)
  have hrender := renderWithSignatures_eq (s := signer.storeDir) hn signatures
  obtain ⟨hlines, hparse⟩ := parse_rendered (singleLine_url ha) hp hne hs narHash _ rfl
  have hcopy : (servedCopy n narHash signatures).normalizedNarHash = .ok narHash :=
    NormalizedNarHash.parseText_display hl
  have hfn : signer.fingerprint n = .ok (String.ofList (fingerprintText n narHash)).toUTF8 :=
    signer.fingerprint_eq_ok.mpr
      ⟨ha.inside, fun r hr => (ha.references r hr).1, narHash, hn, rfl⟩
  refine ⟨_, _, hrender, hparse, ?_, narHash, hn, hlines⟩
  exact ⟨rfl, rfl, rfl, rfl, rfl, servedCopy_caNarinfoString n narHash signatures,
    sortTexts_perm n.references, sortTexts_perm signatures, hcopy.trans hn.symm,
    (fingerprint_servedCopy hn hl signatures hfn).trans hfn.symm⟩

theorem plain_of_roundTrips {signer : NarInfoSigner} {h : StorePathHash}
    (ha : Accepted signer.storeDir n h) {signatures : List Text}
    (hr : RoundTrips signer n signatures) :
    Plain signer.storeDir n ∧ ∀ x ∈ signatures, SingleLine x := by
  obtain ⟨text, m, hrender, hparse, hcopy, narHash, hn, -⟩ := hr
  have ht : text =
      unlines ((NarInfoRenderer.mk signer.storeDir).renderedLines n narHash signatures) := by
    rw [NarInfoRenderer.renderWithSignatures, hn] at hrender
    exact (Except.ok.inj hrender).symm
  obtain ⟨f, hf, hsp, hrefs, hder, hsig, hca⟩ := parseNarinfo_ok hparse
  have hsorted : n.sortedReferences.Perm n.references := sortTexts_perm n.references
  rw [ht, lines_unlines, renderedLines_eq] at hf
  have hstore : SingleLine n.storePath := by
    rw [earlyLines, List.cons_append] at hf
    exact storePath_of_parse hf (hcopy.storePath ▸ hsp)
  rw [List.flatMap_append, flatMap_pieces (singleLine_early (singleLine_url ha) hstore),
    parseLines_early] at hf
  have hparsed := references_of_parse rfl hf hrefs
  have hplain : ∀ r ∈ n.sortedReferences, PlainReference signer.storeDir r :=
    plainReference_of_parse (fun r hr => ha.references r (hsorted.subset hr))
      (hparsed ▸ hcopy.references.trans hsorted.symm)
  have hline : SingleLine ("References:".toList ++
      referencesValue signer.storeDir n.sortedReferences) := by
    rw [singleLine_field _ (by simp)]
    apply singleLine_referencesValue
    intro r hr
    obtain ⟨rest, hrest, hc⟩ := hplain r hr
    rwa [hrest.displayPath]
  rw [List.flatMap_cons, pieces_singleLine hline, List.singleton_append,
    parseLines_references rfl] at hf
  obtain ⟨hderiver, hsigs, hc⟩ := later_of_parse rfl rfl rfl ha.deriver hf
    (hder.symm.trans hcopy.deriver) (hsig ▸ hcopy.signatures) (hca ▸ hcopy.ca)
  exact ⟨⟨hstore, fun r hr => hplain r (hsorted.symm.subset hr), hderiver, hc⟩, hsigs⟩

theorem singleLine_signMessage (hb : Base64.Printable) (k : NamedSigningKey)
    (message : ByteArray) : SingleLine (k.signMessage message) ↔ '\n' ∉ k.name := by
  have henc : SingleLine (':' :: Base64.encode (Ed25519.sign k.key message)) := by
    apply singleLine_of_forall
    intro c hc
    rcases List.mem_cons.mp hc with rfl | hc
    · decide
    · have := hb _ c hc
      refine ⟨?_, ?_⟩ <;> rintro rfl <;> exact absurd this (by decide)
  constructor
  · exact fun h hn => h.1 (List.mem_append_left _ hn)
  · intro hn
    refine ⟨?_, ?_⟩
    · simp only [NamedSigningKey.signMessage, List.mem_append, not_or]
      exact ⟨hn, henc.1⟩
    · rw [NamedSigningKey.signMessage, List.getLast?_append_of_ne_nil _ (by simp)]
      exact henc.2

theorem signed_roundTrips_iff (hb : Base64.Printable) {signer : NarInfoSigner} {n : NarInfo}
    {h : StorePathHash} {signatures : List Text}
    (hv : validatePublishNarinfo signer.storeDir n = .ok h)
    (hs : signer.sign n = .ok signatures) :
    RoundTrips signer n signatures ↔
      Plain signer.storeDir n ∧ ∀ k ∈ signer.keys, '\n' ∉ k.name := by
  have ha := validatePublishNarinfo_ok hv
  have hsigs : (∀ x ∈ signatures, SingleLine x) ↔ ∀ k ∈ signer.keys, '\n' ∉ k.name := by
    obtain ⟨message, -, rfl⟩ := signer.sign_eq_ok.mp hs
    simp [singleLine_signMessage hb]
  rw [← hsigs]
  exact ⟨plain_of_roundTrips ha, fun hp => roundTrips_of_plain ha hp.1 hp.2⟩

end Codec

section Hello

attribute [local instance] standardBase64 keyless

def hello (name : Text) : NarInfo where
  storePath := "/nix/store/26xbg1ndr7hbcncrlf9nhx5is2b25d13-".toList ++ name
  url := "nar/020ay2q1av2xs4n842rb3d7vz8qms1dcb87a5yd6azaci20x11lz.nar.zst".toList
  compression := "zstd".toList
  narHash := .raw "sha256:020ay2q1av2xs4n842rb3d7vz8qms1dcb87a5yd6azaci20x11lz".toList
  narSize := 226560
  references := []
  deriver := none
  signatures := []
  ca := none

def keylessSigner : NarInfoSigner := ⟨StoreDir.defaultNix, []⟩

theorem hello_roundTrips_iff : RoundTrips keylessSigner (hello "hello-2.12.1".toList) [] ↔
    Plain StoreDir.defaultNix (hello "hello-2.12.1".toList) ∧
      ∀ k ∈ keylessSigner.keys, '\n' ∉ k.name := by
  have hv : validatePublishNarinfo keylessSigner.storeDir (hello "hello-2.12.1".toList) =
      .ok helloHash := by decide
  exact signed_roundTrips_iff standardBase64_printable hv (by rfl)

theorem hello_lineBreak_not_roundTrips :
    validatePublishNarinfo StoreDir.defaultNix (hello "hello\nDeriver: x".toList) = .ok helloHash ∧
      keylessSigner.sign (hello "hello\nDeriver: x".toList) = .ok [] ∧
      ¬ RoundTrips keylessSigner (hello "hello\nDeriver: x".toList) [] := by
  have hv : validatePublishNarinfo StoreDir.defaultNix (hello "hello\nDeriver: x".toList) =
      .ok helloHash := by decide
  refine ⟨hv, by rfl, fun hr => ?_⟩
  have hs := (plain_of_roundTrips (validatePublishNarinfo_ok hv) hr).1.storePath
  exact hs.1 (by decide)

end Hello

end RoundTrip
