import ProjectCache.Core.DepotPath
import ProjectCache.Core.Project
import ProjectCache.Lib.FilePath

namespace DepotPath

open Textual Nix

def DepotObjectPath.text : DepotObjectPath → Text
  | .nixCacheInfo => "nix-cache-info".toList
  | .indexHtml => "index.html".toList
  | .narInfo h => h.text ++ ".narinfo".toList
  | .nar digest c => "nar/".toList ++ digest ++ c.fileSuffix
  | .listing h => h.text ++ ".ls".toList
  | .log path => path
  | .realisation path => path

def Base32Text (s : Text) : Prop := ∀ c ∈ s, c ∈ nixBase32Alphabet

inductive Accepted : DepotObjectPath → Prop
  | nixCacheInfo : Accepted .nixCacheInfo
  | indexHtml : Accepted .indexHtml
  | narInfo (h : StorePathHash) (hb : Base32Text h.text) : Accepted (.narInfo h)
  | nar (digest : Text) (c : NarCompression) (hb : Base32Text digest) : Accepted (.nar digest c)
  | listing (h : StorePathHash) (hb : Base32Text h.text) : Accepted (.listing h)
  | log (name : Text) (hn : '/' ∉ name) : Accepted (.log ("log/".toList ++ name ++ ".drv".toList))
  | realisation (algorithm hash output : Text) (ha : '.' ∉ algorithm) (hh : '.' ∉ hash)
    (ho : '/' ∉ output) :
    Accepted (.realisation ("realisations/".toList ++
      (algorithm ++ ':' :: (hash ++ '!' :: (output ++ ".doi".toList)))))

theorem hashFile_eq_some {suffix path hash : Text} (h : hashFile suffix path = some hash) :
    path = hash ++ suffix ∧ Base32Text hash := by
  rw [hashFile, Option.filter_eq_some_iff, stripSuffix_eq_some] at h
  refine ⟨h.1, fun c hc => ?_⟩
  have hall := (Bool.and_eq_true_iff.mp h.2).2
  simpa using List.all_eq_true.mp hall c hc

theorem nonemptyAll_mem {p : Char → Bool} {s : Text} (h : nonemptyAll p s = true) :
    ∀ c ∈ s, p c = true := List.all_eq_true.mp (Bool.and_eq_true_iff.mp h).2

theorem not_mem_of_nonemptyAll {p : Char → Bool} {s : Text} {c : Char}
    (h : nonemptyAll p s = true) (hc : p c = false) : c ∉ s := by
  intro hm
  rw [nonemptyAll_mem h c hm] at hc
  cases hc

theorem accepted_of_isLogFile {path : Text} (h : isLogFile path = true) : Accepted (.log path) := by
  unfold isLogFile at h
  split at h
  · rename_i name hn
    obtain ⟨rest, hr, hs⟩ := Option.bind_eq_some_iff.mp hn
    rw [stripPrefix_eq_some.mp hr, stripSuffix_eq_some.mp hs, ← List.append_assoc]
    exact .log name (not_mem_of_nonemptyAll h (by decide))
  · cases h

theorem accepted_of_isRealisationFile {path : Text} (h : isRealisationFile path = true) :
    Accepted (.realisation path) := by
  unfold isRealisationFile at h
  split at h
  · cases h
  rename_i algorithm rest hr
  split at h
  · cases h
  rename_i hash file hf
  split at h
  · cases h
  rename_i output ho
  obtain ⟨tail, ht, hs⟩ := Option.bind_eq_some_iff.mp hr
  rw [stripPrefix_eq_some.mp ht, (splitOnce_eq_some.mp hs).1, (splitOnce_eq_some.mp hf).1,
    stripSuffix_eq_some.mp ho]
  simp only [Bool.and_eq_true] at h
  exact .realisation _ _ _ (not_mem_of_nonemptyAll h.1.1 (by decide))
    (not_mem_of_nonemptyAll h.1.2 (by decide)) (not_mem_of_nonemptyAll h.2 (by decide))

theorem hash_of_map {f : StorePathHash → DepotObjectPath} {text : Text} {p : DepotObjectPath}
    (h : (StorePathHash.fromHash text).toOption.map f = some p) : ∃ h, h.text = text ∧ f h = p := by
  cases hf : StorePathHash.fromHash text with
  | ok hash =>
    rw [hf] at h
    exact ⟨hash, StorePathHash.fromHash_eq_ok.mp hf, Option.some.inj h⟩
  | error x =>
    rw [hf] at h
    cases h

structure Guarded (path : Text) : Prop where
  nonempty : path ≠ []
  relative : startsWith ['/'] path = false
  dotless : containsText "..".toList path = false

theorem parseDepotObjectPath_eq_some {path : Text} {p : DepotObjectPath}
    (h : parseDepotObjectPath path = some p) : Guarded path ∧ Accepted p ∧ path = p.text := by
  unfold parseDepotObjectPath at h
  split at h
  · cases h
  rename_i hguard
  simp only [not_or, Bool.not_eq_true] at hguard
  refine ⟨⟨hguard.1, hguard.2.1, hguard.2.2⟩, ?_⟩
  split at h
  · rename_i hp
    cases h
    exact ⟨.nixCacheInfo, hp⟩
  split at h
  · rename_i hp
    cases h
    exact ⟨.indexHtml, hp⟩
  split at h
  · rename_i hash hf
    obtain ⟨rfl, hb⟩ := hashFile_eq_some hf
    obtain ⟨h', rfl, rfl⟩ := hash_of_map h
    exact ⟨.narInfo h' hb, rfl⟩
  split at h
  · rename_i digest c hf
    cases h
    obtain ⟨hp, -, hb⟩ := narFile_eq_some hf
    exact ⟨.nar digest c hb, hp⟩
  split at h
  · rename_i hash hf
    obtain ⟨rfl, hb⟩ := hashFile_eq_some hf
    obtain ⟨h', rfl, rfl⟩ := hash_of_map h
    exact ⟨.listing h' hb, rfl⟩
  split at h
  · rename_i hl
    cases h
    exact ⟨accepted_of_isLogFile hl, rfl⟩
  split at h
  · rename_i hr
    cases h
    exact ⟨accepted_of_isRealisationFile hr, rfl⟩
  · cases h

def endings : Text := "oltrz2svi".toList

theorem Base32Text.not_mem {s : Text} {c : Char} (h : Base32Text s)
    (hc : c ∉ nixBase32Alphabet) : c ∉ s := fun hm => hc (h c hm)

theorem append_marks (a b c d : Text) (x y : Char) :
    a ++ (b ++ x :: (c ++ y :: d)) = a ++ (b ++ x :: (c ++ [y])) ++ d := by simp

theorem Accepted.split {p : DepotObjectPath} (h : Accepted p) :
    ∃ directory file, p.text = directory ++ file ∧ '.' ∉ directory ∧ '/' ∉ file := by
  cases h with
  | nixCacheInfo => exact ⟨[], "nix-cache-info".toList, rfl, by decide, by decide⟩
  | indexHtml => exact ⟨[], "index.html".toList, rfl, by decide, by decide⟩
  | narInfo h hb =>
    refine ⟨[], h.text ++ ".narinfo".toList, rfl, by simp, ?_⟩
    rw [List.mem_append, not_or]
    exact ⟨hb.not_mem (by decide), by decide⟩
  | nar digest c hb =>
    refine ⟨"nar/".toList, digest ++ c.fileSuffix, List.append_assoc _ _ _, by decide, ?_⟩
    rw [List.mem_append, not_or]
    exact ⟨hb.not_mem (by decide), by cases c <;> decide⟩
  | listing h hb =>
    refine ⟨[], h.text ++ ".ls".toList, rfl, by simp, ?_⟩
    rw [List.mem_append, not_or]
    exact ⟨hb.not_mem (by decide), by decide⟩
  | log name hn =>
    refine ⟨"log/".toList, name ++ ".drv".toList, List.append_assoc _ _ _, by decide, ?_⟩
    rw [List.mem_append, not_or]
    exact ⟨hn, by decide⟩
  | realisation algorithm hash output ha hh ho =>
    refine ⟨"realisations/".toList ++ (algorithm ++ ':' :: (hash ++ ['!'])),
      output ++ ".doi".toList, append_marks _ _ _ _ _ _, ?_, ?_⟩
    · simp [ha, hh]
    · rw [List.mem_append, not_or]
      exact ⟨ho, by decide⟩

theorem getLast?_append_text {s t : Text} {c : Char} (h : t.getLast? = some c) :
    (s ++ t).getLast? = some c := by simp [List.getLast?_append, h]

theorem Accepted.last {p : DepotObjectPath} (h : Accepted p) :
    ∃ c ∈ endings, p.text.getLast? = some c := by
  cases h with
  | nixCacheInfo => exact ⟨'o', by decide, rfl⟩
  | indexHtml => exact ⟨'l', by decide, rfl⟩
  | narInfo h hb => exact ⟨'o', by decide, getLast?_append_text rfl⟩
  | nar digest c hb =>
    obtain ⟨d, hd, hl⟩ : ∃ d ∈ endings, c.fileSuffix.getLast? = some d := by
      cases c
      · exact ⟨'r', by decide, rfl⟩
      · exact ⟨'t', by decide, rfl⟩
      · exact ⟨'z', by decide, rfl⟩
      · exact ⟨'2', by decide, rfl⟩
    exact ⟨d, hd, getLast?_append_text hl⟩
  | listing h hb => exact ⟨'s', by decide, getLast?_append_text rfl⟩
  | log name hn => exact ⟨'v', by decide, getLast?_append_text rfl⟩
  | realisation algorithm hash output ha hh ho =>
    refine ⟨'i', by decide, ?_⟩
    have hfile : (output ++ ".doi".toList).getLast? = some 'i' := getLast?_append_text rfl
    exact (congrArg List.getLast? (append_marks _ _ _ _ _ _)).trans (getLast?_append_text hfile)

end DepotPath

namespace Store

open Textual Nix Project DepotPath FilePaths

def invalidObjectPath (objectPath : Text) : Text := "invalid object path ".toList ++ objectPath

def validateObjectPath (objectPath : Text) : Except Text Unit :=
  if objectPath = [] then .error "invalid empty object path".toList
  else if startsWith ['/'] objectPath then .error (invalidObjectPath objectPath)
  else if (objectPath.splitOn '/').any (fun s => s = [] ∨ s = ['.'] ∨ s = ['.', '.']) then
    .error (invalidObjectPath objectPath)
  else .ok ()

def hexDigits (id : Uuid) : Text :=
  (List.range 32).map (fun i => Nat.digitChar (id.toNat / 16 ^ (31 - i) % 16))

def hyphenated (id : Uuid) : Text :=
  let digits := hexDigits id
  digits.take 8 ++ '-' :: ((digits.drop 8).take 4 ++ '-' :: ((digits.drop 12).take 4 ++
    '-' :: ((digits.drop 16).take 4 ++ '-' :: digits.drop 20)))

theorem mod_pow_eq {a b k : Nat} (c : Nat) (h : ∀ i < k, a / c ^ i % c = b / c ^ i % c) :
    a % c ^ k = b % c ^ k := by
  induction k with
  | zero => simp [Nat.mod_one]
  | succ k ih =>
    rw [Nat.mod_pow_succ, Nat.mod_pow_succ, ih (fun i hi => h i (Nat.lt_succ_of_lt hi)),
      h k (Nat.lt_succ_self k)]

theorem digitChar_injective {m n : Nat} (hm : m < 16) (hn : n < 16)
    (h : Nat.digitChar m = Nat.digitChar n) : m = n := by
  have hall : ∀ m < 16, ∀ n < 16, Nat.digitChar m = Nat.digitChar n → m = n := by decide
  exact hall m hm n hn h

theorem hexDigits_injective {a b : Uuid} (h : hexDigits a = hexDigits b) : a = b := by
  have hdigit : ∀ i < 32, a.toNat / 16 ^ i % 16 = b.toNat / 16 ^ i % 16 := by
    intro i hi
    have hpos := List.map_inj_left.mp h (31 - i) (List.mem_range.mpr (by omega))
    have hsub : 31 - (31 - i) = i := by omega
    rw [hsub] at hpos
    exact digitChar_injective (Nat.mod_lt _ (by decide)) (Nat.mod_lt _ (by decide)) hpos
  have hmod := mod_pow_eq 16 hdigit
  have hpow : (16 : Nat) ^ 32 = 2 ^ 128 := by decide
  rw [hpow, Nat.mod_eq_of_lt a.isLt, Nat.mod_eq_of_lt b.isLt] at hmod
  exact BitVec.eq_of_toNat_eq hmod

@[simp] theorem hexDigits_length (id : Uuid) : (hexDigits id).length = 32 := by simp [hexDigits]

theorem hyphenated_length (id : Uuid) : (hyphenated id).length = 36 := by simp [hyphenated]

theorem groups_append (d : Text) :
    d.take 8 ++ ((d.drop 8).take 4 ++ ((d.drop 12).take 4 ++ ((d.drop 16).take 4 ++ d.drop 20))) =
      d := by
  have h12 : d.drop 12 = (d.drop 8).drop 4 := by rw [List.drop_drop]
  have h16 : d.drop 16 = (d.drop 12).drop 4 := by rw [List.drop_drop]
  have h20 : d.drop 20 = (d.drop 16).drop 4 := by rw [List.drop_drop]
  rw [h20, List.take_append_drop, h16, List.take_append_drop, h12, List.take_append_drop,
    List.take_append_drop]

theorem hyphenated_injective {a b : Uuid} (h : hyphenated a = hyphenated b) : a = b := by
  obtain ⟨h₁, h⟩ := List.append_inj h (by simp)
  obtain ⟨h₂, h⟩ := List.append_inj (List.cons.inj h).2 (by simp)
  obtain ⟨h₃, h⟩ := List.append_inj (List.cons.inj h).2 (by simp)
  obtain ⟨h₄, h⟩ := List.append_inj (List.cons.inj h).2 (by simp)
  apply hexDigits_injective
  rw [← groups_append (hexDigits a), h₁, h₂, h₃, h₄, (List.cons.inj h).2, groups_append]

structure FilesystemStorage where
  root : PathBuf

namespace FilesystemStorage

variable (storage : FilesystemStorage)

def pushComponent (objectPath : Text) (resolved : PathBuf) : Component → Except Text PathBuf
  | .normal segment => .ok (resolved ++ [.normal segment])
  | .curDir => .ok resolved
  | .rootDir | .parentDir => .error (invalidObjectPath objectPath)

def resolveObjectPath (objectPath : Text) : Except Text PathBuf :=
  (components objectPath).foldlM (pushComponent objectPath) storage.root

def temporaryPathFor (finalPath : PathBuf) (uuid : Uuid) : PathBuf :=
  finalPath.withFileName ('.' :: (finalPath.fileName.getD "object".toList ++
    '.' :: (hyphenated uuid ++ ".tmp".toList)))

structure SafeKey (s : Text) : Prop where
  validated : validateObjectPath s = .ok ()
  inside : ∃ file, storage.resolveObjectPath s = .ok file ∧ Inside storage.root file
  canonical : ∀ p, parseDepotObjectPath s = some p → s = p.text

def Apart (s t : Text) : Prop :=
  ∀ f g, storage.resolveObjectPath s = .ok f → storage.resolveObjectPath t = .ok g →
    f ≠ g ∧ ∀ uuid, temporaryPathFor f uuid ≠ g ∧ temporaryPathFor g uuid ≠ f

theorem foldlM_pushComponent (objectPath : Text) (segments : List Text) (root : PathBuf) :
    (names segments).foldlM (pushComponent objectPath) root = .ok (root ++ names segments) := by
  induction segments generalizing root with
  | nil => exact congrArg Except.ok (List.append_nil root).symm
  | cons segment segments ih =>
    refine (ih (root ++ [.normal segment])).trans ?_
    simp [names]

end FilesystemStorage

variable {s t : Text} {p q : DepotObjectPath}

theorem getLast?_not_mem {c : Char} (h : s.getLast? = some c) (hc : c ∈ endings) :
    s.getLast? ≠ some '/' ∧ s.getLast? ≠ some '.' := by
  constructor <;> intro h' <;> cases h.symm.trans h' <;> revert hc <;> decide

theorem dot_not_mem_splitOn (h : parseDepotObjectPath s = some p) : ['.'] ∉ s.splitOn '/' := by
  intro hm
  obtain ⟨-, ha, rfl⟩ := parseDepotObjectPath_eq_some h
  obtain ⟨c, hc, hl⟩ := ha.last
  obtain ⟨directory, file, hs, hd, hf⟩ := ha.split
  obtain ⟨a, b, hab, -, rfl | ⟨b, rfl⟩⟩ := mem_splitOn hm
  · refine (getLast?_not_mem hl hc).2 ?_
    rw [hab]
    simp
  · have hcut : a ++ '.' :: ('/' :: b) = directory ++ file := by rw [← hs, hab]; simp
    rcases List.append_eq_append_iff.mp hcut with ⟨w, rfl, hw⟩ | ⟨w, rfl, hw⟩
    · cases w with
      | nil =>
        rw [List.nil_append] at hw
        exact hf (by simp [← hw])
      | cons d w =>
        rw [List.cons_append, List.cons.injEq] at hw
        obtain ⟨rfl, -⟩ := hw
        exact hd (by simp)
    · exact hf (by simp [hw])

theorem dots_not_mem_splitOn (h : parseDepotObjectPath s = some p) :
    ['.', '.'] ∉ s.splitOn '/' := by
  intro hm
  obtain ⟨a, b, hab, -⟩ := mem_splitOn hm
  have hin : containsText "..".toList s = true := containsText_iff.mpr ⟨a, b, hab.symm⟩
  rw [(parseDepotObjectPath_eq_some h).1.dotless] at hin
  cases hin

theorem nil_mem_splitOn (h : parseDepotObjectPath s = some p) :
    [] ∈ s.splitOn '/' ↔ containsText "//".toList s = true := by
  obtain ⟨hg, ha, rfl⟩ := parseDepotObjectPath_eq_some h
  obtain ⟨c, hc, hl⟩ := ha.last
  rw [containsText_iff]
  constructor
  · intro hm
    obtain ⟨a, b, hab, ha, hb⟩ := mem_splitOn hm
    rw [List.append_nil] at hab
    rcases hb with rfl | ⟨b, rfl⟩
    · rcases ha with rfl | ⟨a, rfl⟩
      · exact absurd hab hg.nonempty
      · refine absurd ?_ (getLast?_not_mem hl hc).1
        rw [hab]
        simp
    · rcases ha with rfl | ⟨a, rfl⟩
      · have hrel := hg.relative
        rw [hab] at hrel
        cases hrel
      · exact ⟨a, b, by rw [hab]; simp⟩
  · rintro ⟨a, b, hab⟩
    have hcut : a ++ '/' :: ([] ++ '/' :: b) = p.text := by rw [← hab]; simp
    rw [← hcut, List.splitOn_append_cons_self,
      List.splitOn_append_cons_self_of_not_mem (by simp)]
    simp

theorem segments_eq_concat (h : parseDepotObjectPath s = some p) :
    ∃ directories file c, segments s = directories ++ [file] ∧ file.getLast? = some c ∧
      c ∈ endings := by
  obtain ⟨-, ha, rfl⟩ := parseDepotObjectPath_eq_some h
  obtain ⟨c, hc, hl⟩ := ha.last
  by_cases hm : '/' ∈ p.text
  · obtain ⟨directory, file, hs, hf⟩ := eq_append_cons_last hm
    have hne : file.getLast? = some c := by
      cases file using List.reverseRecOn with
      | nil =>
        refine absurd ?_ (getLast?_not_mem hl hc).1
        rw [hs]
        simp
      | append_singleton file d =>
        have hsplit : p.text = (directory ++ '/' :: file) ++ [d] := by rw [hs]; simp
        rw [hsplit, List.getLast?_concat] at hl
        rw [List.getLast?_concat, hl]
    refine ⟨segments directory, file, c, ?_, hne, hc⟩
    have hfile : file ≠ [] := by rintro rfl; cases hne
    rw [segments, hs, List.splitOn_append_cons_self, List.splitOn_eq_singleton hf,
      List.filter_append, List.filter_cons_of_pos (by simpa using hfile), List.filter_nil]
    rfl
  · have hne : p.text ≠ [] := by
      intro h0
      rw [h0] at hl
      cases hl
    exact ⟨[], p.text, c, by simp [segments, List.splitOn_eq_singleton hm, hne], hl, hc⟩

theorem segments_eq_splitOn (h : parseDepotObjectPath s = some p)
    (hs : containsText "//".toList s = false) : segments s = s.splitOn '/' := by
  refine List.filter_eq_self.mpr (fun w hw => ?_)
  have hne : w ≠ [] := by
    rintro rfl
    rw [(nil_mem_splitOn h).mp hw] at hs
    cases hs
  simpa using hne

theorem validateObjectPath_iff (h : parseDepotObjectPath s = some p) :
    validateObjectPath s = .ok () ↔ containsText "//".toList s = false := by
  obtain ⟨hg, -⟩ := parseDepotObjectPath_eq_some h
  rw [validateObjectPath, if_neg hg.nonempty, hg.relative, if_neg (by simp)]
  have hany : (s.splitOn '/').any (fun w => w = [] ∨ w = ['.'] ∨ w = ['.', '.']) =
      containsText "//".toList s := by
    rw [Bool.eq_iff_iff, ← nil_mem_splitOn h, List.any_eq_true]
    constructor
    · rintro ⟨w, hw, hd⟩
      rcases of_decide_eq_true hd with rfl | rfl | rfl
      · exact hw
      · exact absurd hw (dot_not_mem_splitOn h)
      · exact absurd hw (dots_not_mem_splitOn h)
    · exact fun hm => ⟨[], hm, by simp⟩
  rw [hany]
  cases containsText "//".toList s <;> simp

namespace FilesystemStorage

variable (storage : FilesystemStorage)

theorem resolveObjectPath_eq (h : parseDepotObjectPath s = some p) :
    storage.resolveObjectPath s = .ok (storage.root ++ names (segments s)) := by
  rw [resolveObjectPath, components_eq (parseDepotObjectPath_eq_some h).1.relative
    (dot_not_mem_splitOn h) (dots_not_mem_splitOn h)]
  exact foldlM_pushComponent _ _ _

theorem inside_resolved (h : parseDepotObjectPath s = some p) :
    Inside storage.root (storage.root ++ names (segments s)) := by
  obtain ⟨directories, file, -, hs, -⟩ := segments_eq_concat h
  exact ⟨segments s, by simp [hs], rfl⟩

theorem temporaryPathFor_concat (directory : PathBuf) (file : Text) (uuid : Uuid) :
    temporaryPathFor (directory ++ [.normal file]) uuid =
      directory ++ [.normal ('.' :: (file ++ '.' :: (hyphenated uuid ++ ".tmp".toList)))] := by
  simp [temporaryPathFor]

theorem temporary_last (file : Text) (uuid : Uuid) :
    ('.' :: (file ++ '.' :: (hyphenated uuid ++ ".tmp".toList))).getLast? = some 'p' := by
  simp [List.getLast?_cons, List.getLast?_append]

theorem temporaryPathFor_ne (h : parseDepotObjectPath s = some p)
    (h' : parseDepotObjectPath t = some q) (uuid : Uuid) :
    temporaryPathFor (storage.root ++ names (segments s)) uuid ≠
      storage.root ++ names (segments t) := by
  obtain ⟨directories, file, -, hs, -⟩ := segments_eq_concat h
  obtain ⟨directories', file', c, ht, hl, hc⟩ := segments_eq_concat h'
  rw [hs, ht, names, names, List.map_append, List.map_append, ← List.append_assoc,
    ← List.append_assoc]
  intro heq
  rw [List.map_singleton, List.map_singleton, temporaryPathFor_concat] at heq
  have hfile := Component.normal.inj (List.singleton_inj.mp (List.append_inj' heq rfl).2)
  rw [← hfile, temporary_last] at hl
  cases hl
  revert hc
  decide

theorem safe_and_apart_iff (hs : parseDepotObjectPath s = some p)
    (ht : parseDepotObjectPath t = some q) :
    (storage.SafeKey s ∧ storage.SafeKey t ∧ (s ≠ t → storage.Apart s t)) ↔
      containsText "//".toList s = false ∧ containsText "//".toList t = false := by
  constructor
  · rintro ⟨h, h', -⟩
    exact ⟨(validateObjectPath_iff hs).mp h.validated, (validateObjectPath_iff ht).mp h'.validated⟩
  · rintro ⟨h, h'⟩
    have hsafe : ∀ {s : Text} {p : DepotObjectPath}, parseDepotObjectPath s = some p →
        containsText "//".toList s = false → storage.SafeKey s := fun {s p} hs h =>
      { validated := (validateObjectPath_iff hs).mpr h
        inside := ⟨_, storage.resolveObjectPath_eq hs, storage.inside_resolved hs⟩
        canonical := fun p hp => (parseDepotObjectPath_eq_some hp).2.2 }
    refine ⟨hsafe hs h, hsafe ht h', fun hne f g hf hg => ?_⟩
    rw [storage.resolveObjectPath_eq hs, Except.ok.injEq] at hf
    rw [storage.resolveObjectPath_eq ht, Except.ok.injEq] at hg
    subst hf hg
    refine ⟨fun heq => hne ?_, fun uuid => ⟨storage.temporaryPathFor_ne hs ht uuid,
      storage.temporaryPathFor_ne ht hs uuid⟩⟩
    have hseg := names_injective (List.append_cancel_left heq)
    rw [segments_eq_splitOn hs h, segments_eq_splitOn ht h'] at hseg
    exact splitOn_injective hseg

def dataDirectory : FilesystemStorage := ⟨[.rootDir, .normal "data".toList]⟩

def doubled : Text := "realisations/sha256:abc//def456!out.doi".toList

def single : Text := "realisations/sha256:abc/def456!out.doi".toList

theorem cacheInfo_apart :
    parseDepotObjectPath single = some (.realisation single) ∧
    parseDepotObjectPath "nix-cache-info".toList = some .nixCacheInfo ∧
    ((dataDirectory.SafeKey single ∧ dataDirectory.SafeKey "nix-cache-info".toList ∧
        (single ≠ "nix-cache-info".toList →
          dataDirectory.Apart single "nix-cache-info".toList)) ↔
      containsText "//".toList single = false ∧
        containsText "//".toList "nix-cache-info".toList = false) :=
  ⟨by decide +kernel, by decide +kernel, dataDirectory.safe_and_apart_iff
    (p := .realisation single) (q := .nixCacheInfo) (by decide +kernel) (by decide +kernel)⟩

theorem doubled_unsafe :
    parseDepotObjectPath doubled = some (.realisation doubled) ∧
    parseDepotObjectPath single = some (.realisation single) ∧ doubled ≠ single ∧
    validateObjectPath doubled = .error (invalidObjectPath doubled) ∧
    dataDirectory.resolveObjectPath doubled = dataDirectory.resolveObjectPath single ∧
    ¬ dataDirectory.SafeKey doubled ∧ ¬ dataDirectory.Apart doubled single := by
  have hparse : parseDepotObjectPath doubled = some (.realisation doubled) := by decide +kernel
  have hparse' : parseDepotObjectPath single = some (.realisation single) := by decide +kernel
  have herror : validateObjectPath doubled = .error (invalidObjectPath doubled) := by
    decide +kernel
  have hsame :
      dataDirectory.resolveObjectPath doubled = dataDirectory.resolveObjectPath single := by
    decide +kernel
  refine ⟨hparse, hparse', by decide +kernel, herror, hsame, fun h => ?_, fun h => ?_⟩
  · cases herror.symm.trans h.validated
  · have hresolved := dataDirectory.resolveObjectPath_eq hparse'
    exact (h _ _ (hsame.trans hresolved) hresolved).1 rfl

end FilesystemStorage

end Store
