import ProjectCache.Core.Validation

namespace StoreEntries

open Textual Nix DepotPath Narinfo Validation

def InGrammar (s : Text) : Prop :=
  s.length = StorePathHash.LENGTH ∧ ∀ c ∈ s, c ∈ nixBase32Alphabet

def Disguised (s : Text) : Prop :=
  utf8Len s = StorePathHash.LENGTH ∧ (∀ c ∈ s, isHashCharacter c = true) ∧ ∃ c ∈ s, 128 ≤ c.toNat

theorem ascii_of_symbol {c : Char} (h : c ∈ nixBase32Alphabet) : c.toNat < 128 := by
  have ha : nixBase32Alphabet.all (fun c => c.toNat < 128) = true := by decide
  exact of_decide_eq_true (List.all_eq_true.mp ha c h)

theorem isHashCharacter_of_symbol {c : Char} (h : c ∈ nixBase32Alphabet) :
    isHashCharacter c = true := by
  have hc := ascii_of_symbol h
  exact List.any_eq_true.mpr ⟨c, h, decide_eq_true (Nat.mod_eq_of_lt (by omega)).symm⟩

theorem symbol_of_ascii {c : Char} (hc : c.toNat < 128) (h : isHashCharacter c = true) :
    c ∈ nixBase32Alphabet := by
  obtain ⟨a, ha, he⟩ := List.any_eq_true.mp h
  have he : a.toNat = c.toNat := by
    rw [of_decide_eq_true he, Nat.mod_eq_of_lt (by omega)]
  rwa [← Char.ext (UInt32.toNat_inj.mp he)]

theorem findInvalid_eq_none {s : Text} :
    findInvalid s = none ↔ ∀ c ∈ s, isHashCharacter c = true := by
  rw [findInvalid, List.find?_eq_none]
  constructor
  · intro h c hc
    obtain ⟨i, hi, rfl⟩ := List.getElem_of_mem hc
    simpa using h (s[i], i) (List.mk_mem_zipIdx_iff_getElem?.mpr (by simp [hi]))
  · rintro h ⟨c, i⟩ hq
    simp [h c (List.fst_mem_of_mem_zipIdx hq)]

theorem fromHash_ok_iff {s : Text} :
    (∃ h, StorePathHash.fromHash s = .ok h) ↔
      utf8Len s = StorePathHash.LENGTH ∧ ∀ c ∈ s, isHashCharacter c = true := by
  simp only [StorePathHash.fromHash_eq_ok]
  constructor
  · rintro ⟨h, rfl⟩
    exact ⟨h.length, findInvalid_eq_none.mp h.characters⟩
  · rintro ⟨hl, hc⟩
    exact ⟨⟨s, hl, findInvalid_eq_none.mpr hc⟩, rfl⟩

theorem InGrammar.ascii {s : Text} (h : InGrammar s) : ∀ c ∈ s, c.toNat < 128 :=
  fun c hc => ascii_of_symbol (h.2 c hc)

theorem InGrammar.not_mem {s : Text} (h : InGrammar s) {c : Char} (hc : c ∉ nixBase32Alphabet) :
    c ∉ s := fun hs => hc (h.2 c hs)

theorem inGrammar_of_ascii {s : Text} (hl : utf8Len s = StorePathHash.LENGTH)
    (hc : ∀ c ∈ s, isHashCharacter c = true) (ha : ∀ c ∈ s, c.toNat < 128) : InGrammar s :=
  ⟨by rw [← utf8Len_of_ascii ha, hl], fun c h => symbol_of_ascii (ha c h) (hc c h)⟩

theorem InGrammar.not_disguised {s : Text} (h : InGrammar s) : ¬ Disguised s := by
  rintro ⟨-, -, c, hc, hn⟩
  have := h.ascii c hc
  omega

theorem InGrammar.fromHash {s : Text} (h : InGrammar s) :
    ∃ h, StorePathHash.fromHash s = .ok h :=
  fromHash_ok_iff.mpr
    ⟨by rw [utf8Len_of_ascii h.ascii, h.1], fun c hc => isHashCharacter_of_symbol (h.2 c hc)⟩

theorem inGrammar_iff_not_disguised (h : StorePathHash) :
    InGrammar h.text ↔ ¬ Disguised h.text := by
  have hc := findInvalid_eq_none.mp h.characters
  refine ⟨InGrammar.not_disguised, fun hd => inGrammar_of_ascii h.length hc fun c hm => ?_⟩
  by_contra hn
  exact hd ⟨h.length, hc, c, hm, by omega⟩

theorem hashFile_eq_some {suffix path hash : Text} :
    hashFile suffix path = some hash ↔ path = hash ++ suffix ∧ InGrammar hash := by
  simp [hashFile, Option.filter_eq_some_iff, stripSuffix_eq_some, InGrammar]

theorem containsText_dots {a b : Text} (ha : '.' ∉ a) (hb : '.' ∉ b) :
    containsText "..".toList (a ++ '.' :: b) = false := by
  have hrest : containsText ['.', '.'] b = false := by
    rw [← List.append_nil b, containsText_append hb]
    rfl
  have hstart : startsWith ['.', '.'] ('.' :: b) = false := by
    rw [← Bool.not_eq_true, startsWith_iff]
    rintro ⟨r, hr⟩
    exact hb (by rw [← (List.cons.inj hr).2]; exact List.mem_cons_self)
  change containsText ['.', '.'] (a ++ '.' :: b) = false
  rw [containsText_append ha, containsText, List.tails_cons, List.any_cons, hstart, Bool.false_or]
  exact hrest

section

variable {h : StorePathHash} {s : Text}

theorem served_guards (hg : InGrammar h.text) (hs : '.' ∉ s) (hp : '/' ∉ s) :
    ¬ (h.text ++ '.' :: s = [] ∨ startsWith ['/'] (h.text ++ '.' :: s) = true ∨
      containsText "..".toList (h.text ++ '.' :: s) = true) ∧
    h.text ++ '.' :: s ≠ "nix-cache-info".toList ∧
    h.text ++ '.' :: s ≠ "index.html".toList := by
  have hlen : 33 ≤ (h.text ++ '.' :: s).length := by
    have := hg.1
    simp only [StorePathHash.LENGTH] at this
    simp only [List.length_append, List.length_cons]
    omega
  refine ⟨?_, ?_, ?_⟩
  · rintro (he | hr | hd)
    · simp at he
    · obtain ⟨t, ht⟩ := startsWith_iff.mp hr
      have hm : '/' ∈ h.text ++ '.' :: s := by simp [← ht]
      simp [hg.not_mem (by decide : '/' ∉ nixBase32Alphabet), hp] at hm
    · rw [containsText_dots (hg.not_mem (by decide)) hs] at hd
      cases hd
  · intro he
    rw [he] at hlen
    simp at hlen
  · intro he
    rw [he] at hlen
    simp at hlen

theorem narFile_hash_eq_none (hg : InGrammar h.text) (hp : '/' ∉ s) :
    narFile (h.text ++ '.' :: s) = none := by
  cases hn : narFile (h.text ++ '.' :: s) with
  | none => rfl
  | some q =>
    have hm : '/' ∈ h.text ++ '.' :: s := by simp [(narFile_eq_some hn).1]
    simp [hg.not_mem (by decide : '/' ∉ nixBase32Alphabet), hp] at hm

theorem hashFile_other_eq_none {other : Text} (hg : InGrammar h.text) (hne : s ≠ other) :
    hashFile ('.' :: other) (h.text ++ '.' :: s) = none := by
  cases hf : hashFile ('.' :: other) (h.text ++ '.' :: s) with
  | none => rfl
  | some t =>
    obtain ⟨he, ht⟩ := hashFile_eq_some.mp hf
    exact absurd (append_separator_eq (hg.not_mem (by decide)) (ht.not_mem (by decide)) he).2 hne

theorem parse_narInfo (hg : InGrammar h.text) :
    parseDepotObjectPath (h.text ++ ".narinfo".toList) = some (.narInfo h) := by
  change parseDepotObjectPath (h.text ++ '.' :: "narinfo".toList) = some (.narInfo h)
  obtain ⟨hguard, hcache, hindex⟩ :=
    served_guards (s := "narinfo".toList) hg (by decide) (by decide)
  have hf : hashFile ".narinfo".toList (h.text ++ '.' :: "narinfo".toList) = some h.text :=
    hashFile_eq_some.mpr ⟨rfl, hg⟩
  unfold parseDepotObjectPath
  rw [if_neg hguard, if_neg hcache, if_neg hindex, hf]
  simp [StorePathHash.fromHash_eq_ok.mpr rfl, Except.toOption]

theorem parse_listing (hg : InGrammar h.text) :
    parseDepotObjectPath (h.text ++ ".ls".toList) = some (.listing h) := by
  change parseDepotObjectPath (h.text ++ '.' :: "ls".toList) = some (.listing h)
  obtain ⟨hguard, hcache, hindex⟩ :=
    served_guards (s := "ls".toList) hg (by decide) (by decide)
  have hother : hashFile ".narinfo".toList (h.text ++ '.' :: "ls".toList) = none :=
    hashFile_other_eq_none hg (by decide)
  have hnar : narFile (h.text ++ '.' :: "ls".toList) = none :=
    narFile_hash_eq_none hg (by decide)
  have hf : hashFile ".ls".toList (h.text ++ '.' :: "ls".toList) = some h.text :=
    hashFile_eq_some.mpr ⟨rfl, hg⟩
  unfold parseDepotObjectPath
  rw [if_neg hguard, if_neg hcache, if_neg hindex, hother, hnar]
  simp only [hf]
  simp [StorePathHash.fromHash_eq_ok.mpr rfl, Except.toOption]

theorem grammar_of_parse_narInfo {path : Text}
    (hp : parseDepotObjectPath path = some (.narInfo h)) :
    path = h.text ++ ".narinfo".toList ∧ InGrammar h.text := by
  unfold parseDepotObjectPath at hp
  split at hp
  · cases hp
  split at hp
  · cases hp
  split at hp
  · cases hp
  split at hp
  · rename_i t hf
    cases ht : StorePathHash.fromHash t with
    | error e => simp [ht, Except.toOption] at hp
    | ok g =>
      have hg : g = h := by simpa [ht, Except.toOption] using hp
      subst hg
      rw [StorePathHash.fromHash_eq_ok.mp ht]
      exact hashFile_eq_some.mp hf
  · repeat' split at hp
    all_goals simp at hp

end

def Addressed (h : StorePathHash) : Prop :=
  parseDepotObjectPath (h.text ++ ".narinfo".toList) = some (.narInfo h) ∧
    parseDepotObjectPath (h.text ++ ".ls".toList) = some (.listing h)

theorem addressed_iff (h : StorePathHash) : Addressed h ↔ InGrammar h.text :=
  ⟨fun ha => (grammar_of_parse_narInfo ha.1).2, fun hg => ⟨parse_narInfo hg, parse_listing hg⟩⟩

theorem one_grammar_iff (s : Text) (h : StorePathHash) :
    (((∃ k, StorePathHash.fromHash s = .ok k) ↔ InGrammar s) ↔ ¬ Disguised s) ∧
      (Addressed h ↔ ¬ Disguised h.text) := by
  refine ⟨⟨?_, ?_⟩, (addressed_iff h).trans (inGrammar_iff_not_disguised h)⟩
  · rintro hs ⟨hl, hc, hd⟩
    exact (hs.mp (fromHash_ok_iff.mpr ⟨hl, hc⟩)).not_disguised ⟨hl, hc, hd⟩
  · intro hd
    refine ⟨?_, InGrammar.fromHash⟩
    rintro ⟨k, hf⟩
    rw [← StorePathHash.fromHash_eq_ok.mp hf] at hd ⊢
    exact (inGrammar_iff_not_disguised k).mpr hd

def dottedHash : Text := Char.ofNat 0x130 :: List.replicate 30 '0'

theorem dottedHash_not_addressed :
    ((StorePathHash.fromHash dottedHash).toOption.map (·.text) = some dottedHash ∧
      ¬ InGrammar dottedHash) ∧
    parseDepotObjectPath (dottedHash ++ ".narinfo".toList) = none ∧
    parseDepotObjectPath (dottedHash ++ ".ls".toList) = none := by
  refine ⟨⟨by decide +kernel, fun h => ?_⟩, by decide +kernel, by decide +kernel⟩
  exact absurd h.1 (by decide)

def entries (n : NarInfo) : List Text := n.storePath :: n.references ++ n.deriver.toList

def components (path : Text) : List Text := (path.splitOn '/').tail

def Plain (path : Text) : Prop := [] ∉ components path ∧ "..".toList ∉ components path

instance (path : Text) : Decidable (Plain path) := inferInstanceAs (Decidable (_ ∧ _))

def DirectEntry (s : StoreDir) (path : Text) : Prop :=
  ∃ hash name, InGrammar hash ∧ '/' ∉ name ∧ path = s.path ++ '/' :: (hash ++ '-' :: name)

def OnlyDirect (s : StoreDir) (n : NarInfo) (h : StorePathHash) : Prop :=
  (∀ p ∈ entries n, DirectEntry s p ∧ Plain p) ∧
    ∃ name, '/' ∉ name ∧ n.storePath = s.path ++ '/' :: (h.text ++ '-' :: name)

def Shallow (s : StoreDir) (path : Text) : Prop :=
  ∃ rest, path = s.path ++ '/' :: rest ∧ '/' ∉ rest ∧
    ∀ c ∈ rest.takeWhile (· ≠ '-'), c.toNat < 128

theorem components_append (s : StoreDir) {rest : Text} (h : '/' ∉ rest) :
    components (s.path ++ '/' :: rest) = components s.path ++ [rest] := by
  rw [components, components, List.splitOn_append_cons_self,
    List.tail_append_of_ne_nil (List.splitOn_ne_nil _ _), List.splitOn_eq_singleton h]

theorem plain_append (s : StoreDir) {rest : Text} (h : '/' ∉ rest) (hd : '-' ∈ rest) :
    Plain (s.path ++ '/' :: rest) ↔ Plain s.path := by
  have hempty : [] ≠ rest := by rintro rfl; simp at hd
  have hdots : "..".toList ≠ rest := by rintro rfl; simp at hd
  simp only [Plain, components_append s h, List.mem_append, List.mem_singleton, hempty, hdots,
    or_false]

theorem takeWhile_hash {hash : Text} (h : '-' ∉ hash) (name : Text) :
    (hash ++ '-' :: name).takeWhile (· ≠ '-') = hash := by
  rw [List.takeWhile_append_of_pos]
  · simp
  · intro c hc
    simpa using fun he : c = '-' => h (he ▸ hc)

theorem DirectEntry.shallow {s : StoreDir} {path : Text} (h : DirectEntry s path)
    (hp : Plain path) : Shallow s path ∧ Plain s.path := by
  obtain ⟨hash, name, hg, hn, rfl⟩ := h
  have hslash : '/' ∉ hash ++ '-' :: name := by
    simp [hg.not_mem (by decide : '/' ∉ nixBase32Alphabet), hn]
  refine ⟨⟨_, rfl, hslash, ?_⟩, (plain_append s hslash (by simp)).mp hp⟩
  rw [takeWhile_hash (hg.not_mem (by decide))]
  exact hg.ascii

theorem Shallow.split {s : StoreDir} {path : Text} {h : StorePathHash} (hs : Shallow s path)
    (hp : StorePathHash.parseFromStorePath path = .ok h) :
    ∃ name, InGrammar h.text ∧ '/' ∉ name ∧ path = s.path ++ '/' :: (h.text ++ '-' :: name) := by
  obtain ⟨rest, rfl, hslash, hascii⟩ := hs
  obtain ⟨name, hn⟩ := StorePathHash.parseFromStorePath_eq_ok.mp hp
  rw [afterLast_append hslash, splitOnce_eq_some] at hn
  obtain ⟨rfl, hdash⟩ := hn
  rw [takeWhile_hash hdash] at hascii
  simp only [List.mem_append, List.mem_cons, not_or] at hslash
  exact ⟨name, inGrammar_of_ascii h.length (findInvalid_eq_none.mp h.characters) hascii,
    hslash.2.2, rfl⟩

theorem Shallow.direct {s : StoreDir} {path : Text} (hs : Shallow s path)
    (hp : PathInside s path) (hplain : Plain s.path) : DirectEntry s path ∧ Plain path := by
  obtain ⟨-, h, hh⟩ := hp
  obtain ⟨name, hg, hn, rfl⟩ := hs.split hh
  have hslash : '/' ∉ h.text ++ '-' :: name := by
    simp [hg.not_mem (by decide : '/' ∉ nixBase32Alphabet), hn]
  exact ⟨⟨h.text, name, hg, hn, rfl⟩, (plain_append s hslash (by simp)).mpr hplain⟩

theorem accepted_entries [Base64] {s : StoreDir} {n : NarInfo} {h : StorePathHash}
    (ha : Accepted s n h) : ∀ p ∈ entries n, PathInside s p := by
  intro p hp
  simp only [entries, List.cons_append, List.mem_cons, List.mem_append, Option.mem_toList] at hp
  rcases hp with rfl | hr | hd
  · exact ⟨ha.inside, h, ha.hash⟩
  · exact ha.references p hr
  · exact ha.deriver p hd

theorem accepted_onlyDirect_iff [Base64] {s : StoreDir} {n : NarInfo} {h : StorePathHash}
    (hv : validatePublishNarinfo s n = .ok h) :
    OnlyDirect s n h ↔ Plain s.path ∧ ∀ p ∈ entries n, Shallow s p := by
  have ha := validatePublishNarinfo_ok hv
  have hstore : n.storePath ∈ entries n := by simp [entries]
  constructor
  · rintro ⟨hd, -⟩
    exact ⟨((hd _ hstore).1.shallow (hd _ hstore).2).2,
      fun p hp => ((hd p hp).1.shallow (hd p hp).2).1⟩
  · rintro ⟨hplain, hs⟩
    refine ⟨fun p hp => (hs p hp).direct (accepted_entries ha p hp) hplain, ?_⟩
    obtain ⟨name, -, hn, he⟩ := (hs _ hstore).split ha.hash
    exact ⟨name, hn, he⟩

def helloInfo (storePath : Text) : NarInfo where
  storePath := storePath
  url := "nar/020ay2q1av2xs4n842rb3d7vz8qms1dcb87a5yd6azaci20x11lz.nar.zst".toList
  compression := "zstd".toList
  narHash := .raw "sha256:020ay2q1av2xs4n842rb3d7vz8qms1dcb87a5yd6azaci20x11lz".toList
  narSize := 226560
  references := []
  deriver := none
  signatures := []
  ca := none

section

attribute [local instance] standardBase64

theorem hello_onlyDirect :
    OnlyDirect .defaultNix
      (helloInfo "/nix/store/26xbg1ndr7hbcncrlf9nhx5is2b25d13-hello-2.12.1".toList) helloHash :=
  (accepted_onlyDirect_iff (by decide +kernel)).mpr
    ⟨by decide +kernel, by
      intro p hp
      obtain rfl : p = "/nix/store/26xbg1ndr7hbcncrlf9nhx5is2b25d13-hello-2.12.1".toList := by
        simpa [entries, helloInfo] using hp
      have hascii : helloHash.text.all (fun c => c.toNat < 128) = true := by decide +kernel
      refine ⟨helloHash.text ++ '-' :: "hello-2.12.1".toList, by decide +kernel,
        by decide +kernel, ?_⟩
      rw [takeWhile_hash (by decide +kernel)]
      intro c hc
      exact of_decide_eq_true (List.all_eq_true.mp hascii c hc)⟩

theorem dotted_path_accepted :
    (validatePublishNarinfo .defaultNix (helloInfo
        "/nix/store/../../tmp/26xbg1ndr7hbcncrlf9nhx5is2b25d13-hello-2.12.1".toList)).toOption =
      some helloHash ∧
    ¬ OnlyDirect .defaultNix (helloInfo
        "/nix/store/../../tmp/26xbg1ndr7hbcncrlf9nhx5is2b25d13-hello-2.12.1".toList) helloHash := by
  refine ⟨by decide +kernel, fun h => ?_⟩
  have hp := (h.1 _ List.mem_cons_self).2
  revert hp
  decide +kernel

end

end StoreEntries
