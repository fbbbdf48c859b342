import ProjectCache.Core.NarInfo

namespace LineOrder

open Textual Nix Narinfo

variable {s : StoreDir} {f f' : Slots} {l : Text} {ls ls' : List Text}

def fieldNames : List Text :=
  ["StorePath: ", "URL: ", "Compression: ", "NarHash: ", "NarSize: ", "References:", "Deriver: ",
    "Sig: ", "CA: "].map String.toList

def Unrecognised (l : Text) : Prop := ∀ name ∈ fieldNames, stripPrefix name l = none

inductive LineKind : Text → Prop where
  | storePath (v : Text) : LineKind ("StorePath: ".toList ++ v)
  | url (v : Text) : LineKind ("URL: ".toList ++ v)
  | compression (v : Text) : LineKind ("Compression: ".toList ++ v)
  | narHash (v : Text) : LineKind ("NarHash: ".toList ++ v)
  | narSize (v : Text) : LineKind ("NarSize: ".toList ++ v)
  | references (v : Text) : LineKind ("References:".toList ++ v)
  | deriver (v : Text) : LineKind ("Deriver: ".toList ++ v)
  | sig (v : Text) : LineKind ("Sig: ".toList ++ v)
  | ca (v : Text) : LineKind ("CA: ".toList ++ v)
  | unrecognised (l : Text) : Unrecognised l → LineKind l

theorem lineKind_of_field {name : Text} (h : name ∈ fieldNames) (v : Text) :
    LineKind (name ++ v) := by
  simp only [fieldNames, List.map_cons, List.map_nil, List.mem_cons, List.not_mem_nil,
    or_false] at h
  rcases h with rfl | rfl | rfl | rfl | rfl | rfl | rfl | rfl | rfl
  · exact .storePath v
  · exact .url v
  · exact .compression v
  · exact .narHash v
  · exact .narSize v
  · exact .references v
  · exact .deriver v
  · exact .sig v
  · exact .ca v

theorem lineKind (l : Text) : LineKind l := by
  by_cases h : Unrecognised l
  · exact .unrecognised l h
  · simp only [Unrecognised, not_forall, exists_prop] at h
    obtain ⟨name, hn, hv⟩ := h
    obtain ⟨v, hv⟩ := Option.ne_none_iff_exists'.mp hv
    exact stripPrefix_eq_some.mp hv ▸ lineKind_of_field hn v

def Fills {T : Type} (name : Text) (read : Text → T) (before : List T) (ls : List Text)
    (after : List T) : Prop :=
  after = before ++ (ls.filterMap (stripPrefix name)).map read

structure Filled (s : StoreDir) (f : Slots) (ls : List Text) (f' : Slots) : Prop where
  known : ∀ l ∈ ls, l = [] ∨ ':' ∈ l
  storePath : Fills "StorePath: ".toList id f.storePath.toList ls f'.storePath.toList
  url : Fills "URL: ".toList id f.url.toList ls f'.url.toList
  compression : Fills "Compression: ".toList id f.compression.toList ls f'.compression.toList
  narHash : Fills "NarHash: ".toList .raw f.narHash.toList ls f'.narHash.toList
  narSize : Fills "NarSize: ".toList parseU64 (f.narSize.toList.map some) ls
    (f'.narSize.toList.map some)
  references : Fills "References:".toList (parseReferences s) f.references.toList ls
    f'.references.toList
  deriver : Fills "Deriver: ".toList s.expandDisplayPath f.deriver.toList ls f'.deriver.toList
  signatures : Fills "Sig: ".toList id f.signatures ls f'.signatures
  ca : Fills "CA: ".toList .raw f.ca.toList ls f'.ca.toList

section Fills

variable {T : Type} {name : Text} {read : Text → T} {before middle after : List T}

theorem fills_nil : Fills name read before [] after ↔ after = before := by
  simp [Fills]

theorem fills_skip (h : stripPrefix name l = none) : Fills name read before [l] before := by
  simp [Fills, h]

theorem Fills.cons (h : Fills name read before [l] middle) :
    Fills name read before (l :: ls) after ↔ Fills name read middle ls after := by
  unfold Fills at h ⊢
  rw [h, ← List.singleton_append, List.filterMap_append, List.map_append, List.append_assoc]

theorem Fills.after_eq {v : Text} (hl : stripPrefix name l = some v)
    (h : Fills name read before (l :: ls) after) :
    after = before ++ read v :: (ls.filterMap (stripPrefix name)).map read := by
  rw [h, List.filterMap_cons_some hl, List.map_cons]

theorem Fills.free {v : Text} (h : Fills name read before (l :: ls) after)
    (hl : stripPrefix name l = some v) (ha : after.length ≤ 1) : before = [] := by
  have hlen := congrArg List.length (h.after_eq hl)
  rw [List.length_append, List.length_cons] at hlen
  exact List.length_eq_zero_iff.mp (by omega)

theorem Fills.slot {x y : Option T} {v : Text}
    (h : Fills name read x.toList (l :: ls) y.toList) (hl : stripPrefix name l = some v) :
    x = none := by
  have hy : y.toList.length ≤ 1 := by cases y <;> simp
  exact Option.toList_eq_nil_iff.mp (h.free hl hy)

theorem perm_eq_of_length_le_one {a b : List T} (h : a.Perm b) (hl : a.length ≤ 1) : a = b := by
  match a with
  | [] => exact h.nil_eq
  | [x] => exact List.singleton_perm.mp h
  | _ :: _ :: _ => simp at hl

theorem Fills.perm (h : Fills name read before ls after) (ha : after.length ≤ 1)
    (hp : ls.Perm ls') : Fills name read before ls' after := by
  have hperm := ((hp.filterMap (stripPrefix name)).map read).append_left before
  exact h.trans (perm_eq_of_length_le_one hperm (h ▸ ha))

end Fills

theorem parseLine_unrecognised (h : Unrecognised l) :
    parseLine s f l = if l = [] ∨ ':' ∈ l then .ok f else .error (.invalidLine l) := by
  simp only [Unrecognised, fieldNames, List.map_cons, List.map_nil, List.mem_cons,
    List.not_mem_nil, or_false, forall_eq_or_imp, forall_eq] at h
  obtain ⟨h1, h2, h3, h4, h5, h6, h7, h8, h9⟩ := h
  simp only [parseLine, h1, h2, h3, h4, h5, h6, h7, h8, h9]
  by_cases hl : l = []
  · simp [hl]
  · simp [hl]

theorem parseLine_narSize (v : Text) : parseLine s f ("NarSize: ".toList ++ v) =
    match parseU64 v with
    | some size => (setOnce f.narSize size "NarSize".toList).bind
        (fun narSize => .ok { f with narSize })
    | none => .error (.invalidNarSize v) := by
  cases hp : parseU64 v <;>
    simp [parseLine, stripPrefix, hp, bind, Except.bind, pure, Except.pure]

theorem filled_of_step (h : parseLine s f l = .ok f') : Filled s f [l] f' := by
  cases lineKind l with
  | storePath v =>
    obtain ⟨hn, rfl⟩ := setOnce_bind.mp h
    constructor
    case known => simp
    case storePath => rw [hn]; rfl
    all_goals exact fills_skip rfl
  | url v =>
    obtain ⟨hn, rfl⟩ := setOnce_bind.mp h
    constructor
    case known => simp
    case url => rw [hn]; rfl
    all_goals exact fills_skip rfl
  | compression v =>
    obtain ⟨hn, rfl⟩ := setOnce_bind.mp h
    constructor
    case known => simp
    case compression => rw [hn]; rfl
    all_goals exact fills_skip rfl
  | narHash v =>
    obtain ⟨hn, rfl⟩ := setOnce_bind.mp h
    constructor
    case known => simp
    case narHash => rw [hn]; rfl
    all_goals exact fills_skip rfl
  | narSize v =>
    rw [parseLine_narSize] at h
    cases hp : parseU64 v with
    | none =>
      rw [hp] at h
      cases h
    | some size =>
      rw [hp] at h
      obtain ⟨hn, rfl⟩ := setOnce_bind.mp h
      constructor
      case known => simp
      case narSize =>
        have hv : ["NarSize: ".toList ++ v].filterMap (stripPrefix "NarSize: ".toList) = [v] := rfl
        rw [hn, Fills, hv, List.map_singleton, hp]
        rfl
      all_goals exact fills_skip rfl
  | references v =>
    obtain ⟨hn, rfl⟩ := setOnce_bind.mp h
    constructor
    case known => simp
    case references => rw [hn]; rfl
    all_goals exact fills_skip rfl
  | deriver v =>
    obtain ⟨hn, rfl⟩ := setOnce_bind.mp h
    constructor
    case known => simp
    case deriver => rw [hn]; rfl
    all_goals exact fills_skip rfl
  | sig v =>
    cases h
    constructor
    case known => simp
    case signatures => rfl
    all_goals exact fills_skip rfl
  | ca v =>
    obtain ⟨hn, rfl⟩ := setOnce_bind.mp h
    constructor
    case known => simp
    case ca => rw [hn]; rfl
    all_goals exact fills_skip rfl
  | unrecognised l hl =>
    rw [parseLine_unrecognised hl] at h
    split at h
    · rename_i hk
      cases h
      constructor
      case known => simpa using hk
      all_goals exact fills_skip (hl _ (by simp [fieldNames]))
    · cases h

theorem step_of_filled (h : Filled s f (l :: ls) f') : ∃ g, parseLine s f l = .ok g := by
  cases lineKind l with
  | storePath v => exact ⟨_, setOnce_bind.mpr ⟨h.storePath.slot rfl, rfl⟩⟩
  | url v => exact ⟨_, setOnce_bind.mpr ⟨h.url.slot rfl, rfl⟩⟩
  | compression v => exact ⟨_, setOnce_bind.mpr ⟨h.compression.slot rfl, rfl⟩⟩
  | narHash v => exact ⟨_, setOnce_bind.mpr ⟨h.narHash.slot rfl, rfl⟩⟩
  | narSize v =>
    rw [parseLine_narSize]
    have hv := h.narSize.after_eq (stripPrefix_append _ v)
    cases hp : parseU64 v with
    | none =>
      have hmem : none ∈ f'.narSize.toList.map some := by
        rw [hv, hp]
        exact List.mem_append_right _ List.mem_cons_self
      obtain ⟨size, -, hsize⟩ := List.mem_map.mp hmem
      cases hsize
    | some size =>
      have hlen : (f'.narSize.toList.map some).length ≤ 1 := by cases f'.narSize <;> simp
      have hfree := h.narSize.free (stripPrefix_append _ v) hlen
      exact ⟨_, setOnce_bind.mpr ⟨Option.toList_eq_nil_iff.mp (List.map_eq_nil_iff.mp hfree), rfl⟩⟩
  | references v => exact ⟨_, setOnce_bind.mpr ⟨h.references.slot rfl, rfl⟩⟩
  | deriver v => exact ⟨_, setOnce_bind.mpr ⟨h.deriver.slot rfl, rfl⟩⟩
  | sig v => exact ⟨_, rfl⟩
  | ca v => exact ⟨_, setOnce_bind.mpr ⟨h.ca.slot rfl, rfl⟩⟩
  | unrecognised l hl =>
    rw [parseLine_unrecognised hl, if_pos (h.known l (by simp))]
    exact ⟨f, rfl⟩

theorem filled_cons {g : Slots} (h : Filled s f [l] g) :
    Filled s f (l :: ls) f' ↔ Filled s g ls f' := by
  constructor
  · intro h'
    exact ⟨fun l' hl' => h'.known l' (by simp [hl']),
      h.storePath.cons.mp h'.storePath, h.url.cons.mp h'.url,
      h.compression.cons.mp h'.compression, h.narHash.cons.mp h'.narHash,
      h.narSize.cons.mp h'.narSize, h.references.cons.mp h'.references,
      h.deriver.cons.mp h'.deriver, h.signatures.cons.mp h'.signatures, h.ca.cons.mp h'.ca⟩
  · intro h'
    refine ⟨fun l' hl' => ?_,
      h.storePath.cons.mpr h'.storePath, h.url.cons.mpr h'.url,
      h.compression.cons.mpr h'.compression, h.narHash.cons.mpr h'.narHash,
      h.narSize.cons.mpr h'.narSize, h.references.cons.mpr h'.references,
      h.deriver.cons.mpr h'.deriver, h.signatures.cons.mpr h'.signatures,
      h.ca.cons.mpr h'.ca⟩
    rcases List.mem_cons.mp hl' with rfl | hl'
    · exact h.known l' (by simp)
    · exact h'.known l' hl'

theorem toList_injective {T : Type} {x y : Option T} (h : x.toList = y.toList) : x = y := by
  cases x <;> cases y <;> simp_all

theorem filled_nil : Filled s f [] f' ↔ f' = f := by
  constructor
  · rintro ⟨-, h1, h2, h3, h4, h5, h6, h7, h8, h9⟩
    have hsize := List.map_injective_iff.mpr (Option.some_injective _) (fills_nil.mp h5)
    obtain ⟨_, _, _, _, _, _, _, _, _⟩ := f
    obtain ⟨_, _, _, _, _, _, _, _, _⟩ := f'
    cases toList_injective (fills_nil.mp h1)
    cases toList_injective (fills_nil.mp h2)
    cases toList_injective (fills_nil.mp h3)
    cases toList_injective (fills_nil.mp h4)
    cases toList_injective hsize
    cases toList_injective (fills_nil.mp h6)
    cases toList_injective (fills_nil.mp h7)
    cases fills_nil.mp h8
    cases toList_injective (fills_nil.mp h9)
    rfl
  · rintro rfl
    constructor
    case known => simp
    all_goals exact fills_nil.mpr rfl

theorem parseLines_iff : parseLines s f ls = .ok f' ↔ Filled s f ls f' := by
  induction ls generalizing f with
  | nil =>
    rw [filled_nil, parseLines_nil, Except.ok.injEq, eq_comm]
  | cons l ls ih =>
    constructor
    · intro h
      obtain ⟨g, hg, hrest⟩ := parseLines_cons_ok h
      exact (filled_cons (filled_of_step hg)).mpr (ih.mp hrest)
    · intro h
      obtain ⟨g, hg⟩ := step_of_filled h
      rw [parseLines_cons ls hg]
      exact ih.mpr ((filled_cons (filled_of_step hg)).mp h)

theorem Filled.perm (h : Filled s f ls f') (hp : ls.Perm ls')
    (hs : ls.filterMap (stripPrefix "Sig: ".toList) = ls'.filterMap (stripPrefix "Sig: ".toList)) :
    Filled s f ls' f' := by
  have hlen {T : Type} (x : Option T) : x.toList.length ≤ 1 := by cases x <;> simp
  have hsig : Fills "Sig: ".toList id f.signatures ls' f'.signatures := by
    rw [Fills, ← hs]
    exact h.signatures
  have hsize : (f'.narSize.toList.map some).length ≤ 1 := by
    rw [List.length_map]
    exact hlen _
  exact ⟨fun l hl => h.known l (hp.symm.subset hl), h.storePath.perm (hlen _) hp,
    h.url.perm (hlen _) hp, h.compression.perm (hlen _) hp, h.narHash.perm (hlen _) hp,
    h.narSize.perm hsize hp, h.references.perm (hlen _) hp, h.deriver.perm (hlen _) hp,
    hsig, h.ca.perm (hlen _) hp⟩

def isSigLine (l : Text) : Bool := startsWith "Sig: ".toList l

theorem filterMap_filter_sig (ls : List Text) :
    ls.filterMap (stripPrefix "Sig: ".toList) =
      (ls.filter isSigLine).filterMap (stripPrefix "Sig: ".toList) := by
  rw [List.filterMap_filter]
  apply List.filterMap_congr
  intro l _
  unfold isSigLine startsWith
  cases stripPrefix "Sig: ".toList l <;> rfl

theorem parseLines_perm (hp : ls.Perm ls') (hs : ls.filter isSigLine = ls'.filter isSigLine) :
    (parseLines s f ls).toOption = (parseLines s f ls').toOption := by
  have hsig : ls.filterMap (stripPrefix "Sig: ".toList) =
      ls'.filterMap (stripPrefix "Sig: ".toList) := by
    rw [filterMap_filter_sig, hs, ← filterMap_filter_sig]
  have hiff (g : Slots) : parseLines s f ls = .ok g ↔ parseLines s f ls' = .ok g := by
    rw [parseLines_iff, parseLines_iff]
    exact ⟨fun h => h.perm hp hsig, fun h => h.perm hp.symm hsig.symm⟩
  cases h : parseLines s f ls with
  | ok g => rw [(hiff g).mp h]
  | error e =>
    cases h' : parseLines s f ls' with
    | ok g =>
      rw [(hiff g).mpr h'] at h
      cases h
    | error e' => rfl

def Ignored (l : Text) : Prop := l = [] ∨ (':' ∈ l ∧ Unrecognised l)

inductive Inserted : List Text → List Text → Prop where
  | nil : Inserted [] []
  | keep (l : Text) {ls ls' : List Text} : Inserted ls ls' → Inserted (l :: ls) (l :: ls')
  | insert {l : Text} {ls ls' : List Text} : Ignored l → Inserted ls ls' → Inserted ls (l :: ls')

theorem parseLine_ignored (h : Ignored l) : parseLine s f l = .ok f := by
  rcases h with rfl | ⟨hc, hu⟩
  · rfl
  · rw [parseLine_unrecognised hu, if_pos (.inr hc)]

theorem parseLines_inserted (h : Inserted ls ls') : parseLines s f ls' = parseLines s f ls := by
  induction h generalizing f with
  | nil => rfl
  | keep l _ ih =>
    cases hl : parseLine s f l with
    | error e => simp only [parseLines, hl, Except.bind]
    | ok g => rw [parseLines_cons _ hl, parseLines_cons _ hl, ih]
  | insert hi _ ih => rw [parseLines_cons _ (parseLine_ignored hi), ih]

def joinLines (ls : List Text) : Text := joinWith ['\n'] ls

theorem lines_joinLines (h : ∀ l ∈ ls, SingleLine l) :
    ls = lines (joinLines ls) ∨ ls = lines (joinLines ls) ++ [[]] := by
  rcases List.eq_nil_or_concat' ls with rfl | ⟨front, last, rfl⟩
  · exact .inl lines_nil.symm
  · have hsplit : (joinLines (front ++ [last])).splitOn '\n' = front ++ [last] := by
      rw [joinLines, splitOn_joinWith '\n' (by simp)]
      exact flatMap_splitOn (fun l hl => (h l hl).1)
    have hcr : front.map stripCr = front := by
      rw [List.map_congr_left (g := id), List.map_id]
      exact fun l hl => (h l (by simp [hl])).stripCr
    rw [lines, hsplit, List.dropLast_concat, hcr, List.getLast?_concat]
    by_cases hl : last = []
    · exact .inr (by simp [hl])
    · exact .inl (by simp [hl])

theorem parseNarinfo_joinLines (h : ∀ l ∈ ls, SingleLine l) :
    parseNarinfo (joinLines ls) s = (parseLines s {} ls).bind Slots.finish := by
  have hadd (ls : List Text) : Inserted ls (ls ++ [[]]) := by
    induction ls with
    | nil => exact .insert (.inl rfl) .nil
    | cons l ls ih => exact .keep l ih
  rcases lines_joinLines h with he | he
  · rw [parseNarinfo, ← he]
  · rw [parseNarinfo, he, parseLines_inserted (hadd _), ← he]

theorem parse_line_order {ls ls' : List Text} (hl : ∀ l ∈ ls, SingleLine l) (hp : ls.Perm ls')
    (hs : ls.filter isSigLine = ls'.filter isSigLine) :
    (parseNarinfo (joinLines ls) s).toOption = (parseNarinfo (joinLines ls') s).toOption ∧
      ∀ more, Inserted ls' more → (∀ l ∈ more, SingleLine l) →
        parseNarinfo (joinLines more) s = parseNarinfo (joinLines ls') s := by
  have hl' : ∀ l ∈ ls', SingleLine l := fun l h => hl l (hp.symm.subset h)
  constructor
  · have hlines := parseLines_perm (s := s) (f := {}) hp hs
    rw [parseNarinfo_joinLines hl, parseNarinfo_joinLines hl']
    cases h : parseLines s {} ls <;> cases h' : parseLines s {} ls' <;> rw [h, h'] at hlines <;>
      cases hlines <;> rfl
  · intro more hm hmore
    rw [parseNarinfo_joinLines hmore, parseNarinfo_joinLines hl', parseLines_inserted hm]

theorem parse_line_order_hello :
    (parseNarinfo (joinLines ["URL: a".toList, "StorePath: b".toList]) StoreDir.defaultNix).toOption
        = (parseNarinfo (joinLines ["StorePath: b".toList, "URL: a".toList])
          StoreDir.defaultNix).toOption ∧
      ∀ more, Inserted ["StorePath: b".toList, "URL: a".toList] more →
        (∀ l ∈ more, SingleLine l) →
        parseNarinfo (joinLines more) StoreDir.defaultNix =
          parseNarinfo (joinLines ["StorePath: b".toList, "URL: a".toList])
            StoreDir.defaultNix :=
  parse_line_order (by unfold SingleLine; decide) (.swap _ _ _) (by decide)

end LineOrder
