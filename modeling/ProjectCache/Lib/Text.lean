import Mathlib.Algebra.GroupWithZero.Nat
import Mathlib.Algebra.Order.BigOperators.Group.List
import Mathlib.Algebra.Order.Group.Nat
import Mathlib.Data.Char
import Mathlib.Data.List.Induction
import Mathlib.Data.List.Infix
import Mathlib.Data.List.Lex
import Mathlib.Data.List.Sort
import Mathlib.Data.List.TakeWhile
import Mathlib.Tactic.Common

namespace Textual

abbrev Text := List Char

def whitespacePoints : List Nat :=
  [0x09, 0x0A, 0x0B, 0x0C, 0x0D, 0x20, 0x85, 0xA0, 0x1680, 0x2000, 0x2001, 0x2002, 0x2003,
    0x2004, 0x2005, 0x2006, 0x2007, 0x2008, 0x2009, 0x200A, 0x2028, 0x2029, 0x202F, 0x205F, 0x3000]

def isWhitespace (c : Char) : Bool := whitespacePoints.contains c.toNat

def utf8Len (s : Text) : Nat := (s.map Char.utf8Size).sum

def stripPrefix : Text → Text → Option Text
  | [], s => some s
  | _ :: _, [] => none
  | p :: ps, c :: s => if p = c then stripPrefix ps s else none

def startsWith (p s : Text) : Bool := (stripPrefix p s).isSome

def stripSuffix (p s : Text) : Option Text := (stripPrefix p.reverse s.reverse).map List.reverse

def splitOnce (c : Char) : Text → Option (Text × Text)
  | [] => none
  | d :: s => if d = c then some ([], s) else (splitOnce c s).map (fun q => (d :: q.1, q.2))

def afterLast (c : Char) (s : Text) : Text := (s.reverse.takeWhile (· ≠ c)).reverse

def trimStartMatches (p : Char → Bool) (s : Text) : Text := s.dropWhile p

def trimEndMatches (p : Char → Bool) (s : Text) : Text := (s.reverse.dropWhile p).reverse

def trim (s : Text) : Text := trimEndMatches isWhitespace (trimStartMatches isWhitespace s)

def containsText (p s : Text) : Bool := s.tails.any (startsWith p)

def splitWhitespace (s : Text) : List Text := (s.splitOnP isWhitespace).filter (· ≠ [])

def stripCr (s : Text) : Text := (stripSuffix ['\r'] s).getD s

-- A piece that a line feed ends loses one carriage return; a last piece without one keeps it.
def lines (s : Text) : List Text :=
  (s.splitOn '\n').dropLast.map stripCr ++ (s.splitOn '\n').getLast?.toList.filter (· ≠ [])

def unlines (ls : List Text) : Text := ls.flatMap (· ++ ['\n'])

def joinWith (sep : Text) : List Text → Text
  | [] => []
  | [s] => s
  | s :: t :: ts => s ++ sep ++ joinWith sep (t :: ts)

def sortTexts (ts : List Text) : List Text := ts.insertionSort (· ≤ ·)

def decimal (n : Nat) : Text := Nat.toDigits 10 n

def parseU64 (s : Text) : Option UInt64 :=
  let digits := (stripPrefix ['+'] s).getD s
  if digits = [] ∨ ¬ digits.all Char.isDigit then none
  else
    let value := Nat.ofDigitChars 10 digits 0
    if value < 2 ^ 64 then some (UInt64.ofNat value) else none

theorem stripPrefix_append (p s : Text) : stripPrefix p (p ++ s) = some s := by
  induction p with
  | nil => rfl
  | cons c p ih => simpa [stripPrefix] using ih

theorem stripPrefix_eq_some {p s r : Text} : stripPrefix p s = some r ↔ s = p ++ r := by
  constructor
  · intro h
    induction p generalizing s with
    | nil => simpa [stripPrefix] using h
    | cons c p ih =>
      cases s with
      | nil => simp [stripPrefix] at h
      | cons d s =>
        simp only [stripPrefix] at h
        split at h
        · rename_i hcd
          subst hcd
          rw [ih h, List.cons_append]
        · cases h
  · rintro rfl
    exact stripPrefix_append p r

theorem stripPrefix_cons_ne {p c : Char} {ps s : Text} (h : p ≠ c) :
    stripPrefix (p :: ps) (c :: s) = none := by simp [stripPrefix, h]

theorem startsWith_iff {p s : Text} : startsWith p s = true ↔ p <+: s := by
  simp only [startsWith, Option.isSome_iff_exists, stripPrefix_eq_some, List.IsPrefix]
  exact ⟨fun ⟨r, h⟩ => ⟨r, h.symm⟩, fun ⟨r, h⟩ => ⟨r, h.symm⟩⟩

theorem stripSuffix_eq_some {p s r : Text} : stripSuffix p s = some r ↔ s = r ++ p := by
  rw [stripSuffix, Option.map_eq_some_iff]
  simp only [stripPrefix_eq_some]
  constructor
  · rintro ⟨t, ht, rfl⟩
    simpa using congrArg List.reverse ht
  · rintro rfl
    exact ⟨r.reverse, by simp⟩

theorem containsText_iff {p s : Text} : containsText p s = true ↔ p <:+: s := by
  simp only [containsText, List.any_eq_true, List.mem_tails, startsWith_iff,
    List.infix_iff_prefix_suffix]
  exact exists_congr fun t => and_comm

theorem containsText_append {p : Char} {ps a : Text} (h : p ∉ a) (s : Text) :
    containsText (p :: ps) (a ++ s) = containsText (p :: ps) s := by
  induction a with
  | nil => rfl
  | cons c a ih =>
    simp only [List.mem_cons, not_or] at h
    have hstart : startsWith (p :: ps) (c :: (a ++ s)) = false := by
      simp [startsWith, stripPrefix_cons_ne h.1]
    rw [← ih h.2, containsText, List.cons_append, List.tails_cons, List.any_cons, hstart,
      Bool.false_or, containsText]

theorem utf8Size_of_ascii {c : Char} (h : c.toNat < 128) : c.utf8Size = 1 := by
  have hv : c.val ≤ 0x7f := UInt32.le_iff_toNat_le.mpr (Nat.le_of_lt_succ h)
  simp [Char.utf8Size, hv]

theorem utf8Len_of_ascii {s : Text} (h : ∀ c ∈ s, c.toNat < 128) : utf8Len s = s.length := by
  rw [utf8Len, List.map_congr_left fun c hc => utf8Size_of_ascii (h c hc)]
  simp

theorem splitOnce_append {c : Char} {a : Text} (h : c ∉ a) (b : Text) :
    splitOnce c (a ++ c :: b) = some (a, b) := by
  induction a with
  | nil => simp [splitOnce]
  | cons d a ih =>
    simp only [List.mem_cons, not_or] at h
    simp [splitOnce, Ne.symm h.1, ih h.2]

theorem splitOnce_eq_some {c : Char} {s a b : Text} :
    splitOnce c s = some (a, b) ↔ s = a ++ c :: b ∧ c ∉ a := by
  constructor
  · intro h
    induction s generalizing a with
    | nil => simp [splitOnce] at h
    | cons d s ih =>
      simp only [splitOnce] at h
      split at h
      · rename_i hd
        simp only [Option.some.injEq, Prod.mk.injEq] at h
        simp [← h.1, h.2, hd]
      · rename_i hd
        simp only [Option.map_eq_some_iff, Prod.mk.injEq, Prod.exists] at h
        obtain ⟨x, y, hxy, rfl, rfl⟩ := h
        obtain ⟨hs, hx⟩ := ih hxy
        exact ⟨by rw [hs, List.cons_append], by simp [Ne.symm hd, hx]⟩
  · rintro ⟨rfl, h⟩
    exact splitOnce_append h b

theorem splitOnce_eq_none {c : Char} {s : Text} : splitOnce c s = none ↔ c ∉ s := by
  induction s with
  | nil => simp [splitOnce]
  | cons d s ih =>
    by_cases h : d = c
    · simp [splitOnce, h]
    · simp [splitOnce, h, ih, Ne.symm h]

theorem afterLast_append {c : Char} {b : Text} (h : c ∉ b) (a : Text) :
    afterLast c (a ++ c :: b) = b := by
  have hb : ∀ d ∈ b.reverse, (decide (d ≠ c)) = true := by
    intro d hd
    simp only [List.mem_reverse] at hd
    exact decide_eq_true (fun e => h (e ▸ hd))
  simp only [afterLast, List.reverse_append, List.reverse_cons, List.append_assoc]
  rw [List.takeWhile_append_of_pos hb]
  simp

@[simp] theorem splitWhitespace_nil : splitWhitespace [] = [] := by decide

theorem splitWhitespace_append_cons (a b : Text) {c : Char} (hc : isWhitespace c = true) :
    splitWhitespace (a ++ c :: b) = splitWhitespace a ++ splitWhitespace b := by
  simp only [splitWhitespace, List.splitOnP_append_cons _ _ hc, List.filter_append]

theorem splitWhitespace_cons {c : Char} (hc : isWhitespace c = true) (b : Text) :
    splitWhitespace (c :: b) = splitWhitespace b := by
  simpa using splitWhitespace_append_cons [] b hc

theorem splitWhitespace_word {w : Text} (hw : ∀ c ∈ w, isWhitespace c = false) (hne : w ≠ []) :
    splitWhitespace w = [w] := by
  simp [splitWhitespace, List.splitOnP_eq_singleton hw, hne]

theorem forall_mem_splitOnP {α : Type} {p : α → Bool} {xs w : List α}
    (h : w ∈ xs.splitOnP p) : ∀ c ∈ w, p c = false := by
  induction xs generalizing w with
  | nil => simp at h; simp [h]
  | cons x xs ih =>
    rw [List.splitOnP_cons_eq_if_modifyHead] at h
    by_cases hx : p x = true
    · rw [if_pos hx, List.mem_cons] at h
      rcases h with rfl | h
      · simp
      · exact ih h
    · rw [if_neg hx] at h
      obtain ⟨y, ys, hy⟩ := List.exists_cons_of_ne_nil (List.splitOnP_ne_nil p xs)
      rw [hy, List.modifyHead_cons, List.mem_cons] at h
      rcases h with rfl | h
      · intro c hc
        rcases List.mem_cons.mp hc with rfl | hc
        · simpa using hx
        · exact ih (by simp [hy]) c hc
      · exact ih (by simp [hy, h])

theorem not_whitespace_of_mem_splitWhitespace {s w : Text} (h : w ∈ splitWhitespace s) :
    ∀ c ∈ w, isWhitespace c = false := forall_mem_splitOnP (List.mem_filter.mp h).1

theorem stripCr_append_cr (s : Text) : stripCr (s ++ ['\r']) = s := by
  simp [stripCr, stripSuffix, stripPrefix]

theorem stripCr_concat_ne (t : Text) {c : Char} (hc : c ≠ '\r') :
    stripCr (t ++ [c]) = t ++ [c] := by
  simp [stripCr, stripSuffix, stripPrefix, Ne.symm hc]

theorem stripCr_eq_self {s : Text} (h : ∀ t, s ≠ t ++ ['\r']) : stripCr s = s := by
  induction s using List.reverseRecOn with
  | nil => rfl
  | append_singleton t c _ =>
    exact stripCr_concat_ne t (fun hc => h t (by rw [hc]))

theorem stripCr_length_le (s : Text) : (stripCr s).length ≤ s.length := by
  by_cases h : ∃ t, s = t ++ ['\r']
  · obtain ⟨t, rfl⟩ := h
    simp [stripCr_append_cr]
  · rw [stripCr_eq_self (by simpa using h)]

theorem stripCr_append_of_ne_nil (a : Text) {s : Text} (h : s ≠ []) :
    stripCr (a ++ s) = a ++ stripCr s := by
  induction s using List.reverseRecOn with
  | nil => exact absurd rfl h
  | append_singleton t c _ =>
    by_cases hc : c = '\r'
    · rw [hc, ← List.append_assoc, stripCr_append_cr, stripCr_append_cr]
    · rw [← List.append_assoc, stripCr_concat_ne _ hc, stripCr_concat_ne _ hc, List.append_assoc]

theorem splitWhitespace_of_forall {s : Text} (h : ∀ c ∈ s, isWhitespace c = true) :
    splitWhitespace s = [] := by
  induction s with
  | nil => exact splitWhitespace_nil
  | cons c s ih =>
    rw [splitWhitespace_cons (h c (by simp))]
    exact ih (fun d hd => h d (by simp [hd]))

theorem splitWhitespace_of_trim_eq_nil {s : Text} (h : trim s = []) : splitWhitespace s = [] := by
  apply splitWhitespace_of_forall
  have he : s.dropWhile isWhitespace = [] := by
    by_contra hne
    obtain ⟨c, t, ht⟩ := List.exists_cons_of_ne_nil hne
    have hc := List.head?_dropWhile_not isWhitespace s
    have hall : ∀ d ∈ s.dropWhile isWhitespace, isWhitespace d = true := by
      simpa [trim, trimEndMatches, trimStartMatches] using h
    have := hall c (by simp [ht])
    simp [ht, this] at hc
  simpa using he

theorem splitWhitespace_append_flatMap {α : Type} (f : α → Text) (xs : List α) (a : Text) :
    splitWhitespace (a ++ xs.flatMap (fun x => ' ' :: f x)) =
      splitWhitespace a ++ xs.flatMap (fun x => splitWhitespace (f x)) := by
  induction xs generalizing a with
  | nil => simp
  | cons x xs ih =>
    rw [List.flatMap_cons, List.cons_append, splitWhitespace_append_cons a _ (by decide), ih,
      List.flatMap_cons]

def pieces (l : Text) : List Text := (l.splitOn '\n').map stripCr

def firstPiece (l : Text) : Text := stripCr (l.takeWhile (· ≠ '\n'))

def SingleLine (l : Text) : Prop := '\n' ∉ l ∧ l.getLast? ≠ some '\r'

@[simp] theorem lines_nil : lines [] = [] := by decide

theorem lines_append_newline (a b : Text) : lines (a ++ '\n' :: b) = pieces a ++ lines b := by
  have hb := List.splitOn_ne_nil '\n' b
  simp [lines, pieces, List.splitOn_append_cons_self, List.dropLast_append_of_ne_nil, hb,
    List.getLast?_append, List.getLast?_eq_some_getLast hb]

theorem lines_unlines (ls : List Text) : lines (unlines ls) = ls.flatMap pieces := by
  induction ls with
  | nil => exact lines_nil
  | cons l ls ih =>
    rw [unlines, List.flatMap_cons, List.append_assoc, List.singleton_append,
      lines_append_newline, List.flatMap_cons]
    exact congrArg _ ih

theorem SingleLine.stripCr {l : Text} (h : SingleLine l) : stripCr l = l := by
  apply stripCr_eq_self
  rintro t rfl
  exact h.2 (by simp)

theorem pieces_singleLine {l : Text} (h : SingleLine l) : pieces l = [l] := by
  simp [pieces, List.splitOn_eq_singleton h.1, h.stripCr]

theorem flatMap_pieces {ls : List Text} (h : ∀ l ∈ ls, SingleLine l) : ls.flatMap pieces = ls := by
  induction ls with
  | nil => rfl
  | cons l ls ih =>
    rw [List.flatMap_cons, pieces_singleLine (h l (by simp)),
      ih (fun x hx => h x (by simp [hx])), List.singleton_append]

theorem pieces_head (l : Text) : ∃ rest, pieces l = firstPiece l :: rest := by
  by_cases h : '\n' ∈ l
  · obtain ⟨a, b, rfl, ha⟩ := List.eq_append_cons_of_mem h
    refine ⟨pieces b, ?_⟩
    have ht : (a ++ '\n' :: b).takeWhile (· ≠ '\n') = a := by
      rw [List.takeWhile_append_of_pos]
      · simp
      · intro c hc
        simpa using fun e : c = '\n' => ha (e ▸ hc)
    simp only [pieces, firstPiece, ht, List.splitOn_append_cons_self_of_not_mem ha, List.map_cons]
  · refine ⟨[], ?_⟩
    have ht : l.takeWhile (· ≠ '\n') = l := by
      rw [List.takeWhile_eq_self_iff]
      intro c hc
      simpa using fun e : c = '\n' => h (e ▸ hc)
    simp only [pieces, firstPiece, ht, List.splitOn_eq_singleton h, List.map_cons, List.map_nil]

theorem firstPiece_singleLine {l : Text} (h : SingleLine l) : firstPiece l = l := by
  obtain ⟨rest, hr⟩ := pieces_head l
  rw [pieces_singleLine h] at hr
  simpa using (List.cons.inj hr).1.symm

theorem firstPiece_length_le (l : Text) : (firstPiece l).length ≤ l.length :=
  (stripCr_length_le _).trans (List.takeWhile_prefix _).length_le

theorem singleLine_of_length {l : Text} (h : (firstPiece l).length = l.length) : SingleLine l := by
  have ht : l.takeWhile (· ≠ '\n') = l := by
    apply (List.takeWhile_prefix _).eq_of_length_le
    exact h ▸ stripCr_length_le _
  rw [firstPiece, ht] at h
  refine ⟨?_, ?_⟩
  · rw [List.takeWhile_eq_self_iff] at ht
    intro hn
    simpa using ht _ hn
  · intro hl
    obtain ⟨t, rfl⟩ := List.getLast?_eq_some_iff.mp hl
    rw [stripCr_append_cr] at h
    simp at h

theorem firstPiece_eq_self {l : Text} : firstPiece l = l ↔ SingleLine l :=
  ⟨fun h => singleLine_of_length (congrArg List.length h), firstPiece_singleLine⟩

theorem singleLine_append {p v : Text} (hp : SingleLine p) :
    SingleLine (p ++ v) ↔ SingleLine v := by
  cases v using List.reverseRecOn with
  | nil => simpa [SingleLine] using hp
  | append_singleton v c =>
    simp only [SingleLine, List.mem_append, hp.1, false_or, ← List.append_assoc,
      List.getLast?_concat]

theorem firstPiece_append {p : Text} (hp : SingleLine p) (v : Text) :
    firstPiece (p ++ v) = p ++ firstPiece v := by
  have ht : (p ++ v).takeWhile (· ≠ '\n') = p ++ v.takeWhile (· ≠ '\n') := by
    apply List.takeWhile_append_of_pos
    intro c hc
    simpa using fun e : c = '\n' => hp.1 (e ▸ hc)
  rw [firstPiece, ht]
  by_cases hv : v.takeWhile (· ≠ '\n') = []
  · rw [firstPiece, hv, List.append_nil, hp.stripCr]
    exact (List.append_nil p).symm
  · rw [stripCr_append_of_ne_nil _ hv, firstPiece]

theorem singleLine_of_forall {l : Text} (h : ∀ c ∈ l, c ≠ '\n' ∧ c ≠ '\r') : SingleLine l :=
  ⟨fun hn => (h _ hn).1 rfl, fun hl => (h _ (List.mem_of_getLast? hl)).2 rfl⟩

theorem map_firstPiece_sublist (ls : List Text) :
    (ls.map firstPiece).Sublist (ls.flatMap pieces) := by
  induction ls with
  | nil => exact .slnil
  | cons l ls ih =>
    obtain ⟨rest, hr⟩ := pieces_head l
    rw [List.flatMap_cons, hr, List.map_cons]
    exact (ih.trans (List.sublist_append_right rest _)).cons_cons _

theorem length_eq_of_map_perm {f : Text → Text} {xs : List Text} (hp : (xs.map f).Perm xs)
    (hle : ∀ x ∈ xs, (f x).length ≤ x.length) : ∀ x ∈ xs, (f x).length = x.length := by
  intro x hx
  by_contra hne
  have hlt : (xs.map (fun x => (f x).length)).sum < (xs.map List.length).sum :=
    List.sum_lt_sum _ _ hle ⟨x, hx, lt_of_le_of_ne (hle x hx) hne⟩
  have heq : (xs.map (fun x => (f x).length)).sum = (xs.map List.length).sum := by
    simpa [List.map_map, Function.comp_def] using (hp.map List.length).sum_eq
  exact absurd heq hlt.ne

theorem parseU64_decimal (n : UInt64) : parseU64 (decimal n.toNat) = some n := by
  have hd : ∀ c ∈ decimal n.toNat, c.isDigit = true := fun c hc =>
    Nat.isDigit_of_mem_toDigits (by decide) (by decide) hc
  have hne : decimal n.toNat ≠ [] := Nat.toDigits_ne_nil
  have hp : stripPrefix ['+'] (decimal n.toNat) = none := by
    obtain ⟨c, t, ht⟩ := List.exists_cons_of_ne_nil hne
    rw [ht]
    apply stripPrefix_cons_ne
    rintro rfl
    have := hd '+' (by simp [ht])
    contradiction
  have hv : Nat.ofDigitChars 10 (decimal n.toNat) 0 = n.toNat := Nat.ofDigitChars_ten_toDigits
  simp only [parseU64, hp, Option.getD_none, hv]
  rw [if_neg, if_pos n.toNat_lt]
  · simp
  · simp only [not_or, Decidable.not_not, List.all_eq_true]
    exact ⟨hne, hd⟩

theorem sortTexts_perm (ts : List Text) : (sortTexts ts).Perm ts := List.perm_insertionSort _ ts

theorem sortTexts_eq_of_perm {a b : List Text} (h : a.Perm b) : sortTexts a = sortTexts b :=
  ((sortTexts_perm a).trans (h.trans (sortTexts_perm b).symm)).eq_of_pairwise'
    (List.pairwise_insertionSort _ a) (List.pairwise_insertionSort _ b)

theorem append_separator {α : Type} {c : α} {a b u v : List α} (hu : c ∉ u)
    (h : a ++ c :: b = u ++ c :: v) : (a = u ∧ b = v) ∨ ∃ w, a = u ++ c :: w ∧ v = w ++ c :: b := by
  rcases List.append_eq_append_iff.mp h with ⟨w, rfl, hw⟩ | ⟨w, rfl, hw⟩
  · cases w with
    | nil => exact Or.inl ⟨by simp, by simpa using hw⟩
    | cons d w =>
      simp only [List.cons_append, List.cons.injEq] at hw
      exact absurd (hw.1 ▸ by simp) hu
  · cases w with
    | nil => exact Or.inl ⟨by simp, by simpa using hw.symm⟩
    | cons d w =>
      simp only [List.cons_append, List.cons.injEq] at hw
      exact Or.inr ⟨w, by rw [hw.1], hw.2⟩

theorem append_separator_eq {α : Type} {c : α} {a b u v : List α} (ha : c ∉ a) (hu : c ∉ u)
    (h : a ++ c :: b = u ++ c :: v) : a = u ∧ b = v := by
  rcases append_separator hu h with h | ⟨w, rfl, -⟩
  · exact h
  · exact absurd (by simp) ha

theorem flatMap_splitOn {c : Char} {rs : List Text} (h : ∀ r ∈ rs, c ∉ r) :
    rs.flatMap (·.splitOn c) = rs := by
  induction rs with
  | nil => rfl
  | cons r rs ih =>
    rw [List.flatMap_cons, List.splitOn_eq_singleton (h r (by simp)), List.singleton_append]
    exact congrArg _ (ih (fun x hx => h x (by simp [hx])))

theorem splitOn_joinWith (c : Char) {rs : List Text} (h : rs ≠ []) :
    (joinWith [c] rs).splitOn c = rs.flatMap (·.splitOn c) := by
  induction rs with
  | nil => exact absurd rfl h
  | cons r rs ih =>
    cases rs with
    | nil => simp [joinWith]
    | cons t ts =>
      rw [joinWith, List.append_assoc, List.singleton_append, List.splitOn_append_cons_self,
        ih (by simp)]
      rfl

theorem joinWith_eq_nil {c : Char} {rs : List Text} (h : ∀ r ∈ rs, r ≠ [])
    (hj : joinWith [c] rs = []) :
    rs = [] := by
  match rs with
  | [] => rfl
  | [r] => exact absurd hj (h r (by simp))
  | r :: t :: ts => simp [joinWith] at hj

theorem joinWith_eq_iff {c : Char} {rs ts : List Text} (hr : ∀ r ∈ rs, r ≠ [])
    (ht : ∀ t ∈ ts, t ≠ []) :
    joinWith [c] rs = joinWith [c] ts ↔ rs.flatMap (·.splitOn c) = ts.flatMap (·.splitOn c) := by
  have hpieces {xs : List Text} (h : xs.flatMap (·.splitOn c) = []) : xs = [] := by
    cases xs with
    | nil => rfl
    | cons x xs => simp [List.splitOn_ne_nil] at h
  constructor
  · intro h
    by_cases hn : rs = []
    · subst hn
      rw [joinWith_eq_nil ht h.symm]
    · have hn' : ts ≠ [] := by
        rintro rfl
        exact hn (joinWith_eq_nil hr h)
      rw [← splitOn_joinWith c hn, ← splitOn_joinWith c hn', h]
  · intro h
    by_cases hn : rs = []
    · subst hn
      rw [hpieces h.symm]
    · have hn' : ts ≠ [] := by
        rintro rfl
        exact hn (hpieces h)
      have hrs : [c].intercalate ((joinWith [c] rs).splitOn c) = joinWith [c] rs :=
        List.intercalate_splitOn c
      rw [← hrs, splitOn_joinWith c hn, h, ← splitOn_joinWith c hn', List.intercalate_splitOn]

theorem mem_splitOn {c : Char} {s w : Text} (h : w ∈ s.splitOn c) :
    ∃ a b, s = a ++ w ++ b ∧ (a = [] ∨ ∃ a', a = a' ++ [c]) ∧ (b = [] ∨ ∃ b', b = c :: b') := by
  by_cases hc : c ∈ s
  · obtain ⟨a, b, rfl, ha⟩ := List.eq_append_cons_of_mem hc
    rw [List.splitOn_append_cons_self_of_not_mem ha, List.mem_cons] at h
    rcases h with rfl | h
    · exact ⟨[], c :: b, rfl, Or.inl rfl, Or.inr ⟨b, rfl⟩⟩
    · obtain ⟨a', b', rfl, ha', hb'⟩ := mem_splitOn h
      refine ⟨a ++ c :: a', b', by simp, Or.inr ?_, hb'⟩
      rcases ha' with rfl | ⟨x, rfl⟩
      · exact ⟨a, rfl⟩
      · exact ⟨a ++ c :: x, by simp⟩
  · rw [List.splitOn_eq_singleton hc, List.mem_singleton] at h
    exact ⟨[], [], by simp [h], Or.inl rfl, Or.inl rfl⟩
termination_by s.length

theorem eq_append_cons_last {c : Char} {s : Text} (h : c ∈ s) : ∃ a b, s = a ++ c :: b ∧ c ∉ b := by
  obtain ⟨a, b, hs, ha⟩ := List.eq_append_cons_of_mem (List.mem_reverse.mpr h)
  refine ⟨b.reverse, a.reverse, ?_, by simpa using ha⟩
  rw [← List.reverse_reverse s, hs]
  simp

theorem splitOn_injective {c : Char} {s t : Text} (h : s.splitOn c = t.splitOn c) : s = t := by
  calc s = [c].intercalate (s.splitOn c) := (List.intercalate_splitOn c).symm
    _ = [c].intercalate (t.splitOn c) := by rw [h]
    _ = t := List.intercalate_splitOn c

theorem dropWhile_eq_self {α : Type} {p : α → Bool} {xs : List α}
    (h : ∀ x ∈ xs.head?, p x = false) : xs.dropWhile p = xs := by
  cases xs with
  | nil => rfl
  | cons x xs => simp [h x rfl]

theorem head?_dropWhile {α : Type} {p : α → Bool} (xs : List α) :
    ∀ x ∈ (xs.dropWhile p).head?, p x = false := by
  induction xs with
  | nil => simp
  | cons x xs ih =>
    rw [List.dropWhile_cons]
    split
    · exact ih
    · simp_all

theorem mem_dropWhile {α : Type} {p : α → Bool} {x : α} {xs : List α} (h : x ∈ xs)
    (hx : p x = false) : x ∈ xs.dropWhile p := by
  rw [← List.takeWhile_append_dropWhile (p := p) (l := xs), List.mem_append] at h
  refine h.resolve_left (fun ht => ?_)
  rw [List.mem_takeWhile_imp ht] at hx
  cases hx

theorem trim_eq_self {s : Text} (hh : ∀ c ∈ s.head?, isWhitespace c = false)
    (hl : ∀ c ∈ s.getLast?, isWhitespace c = false) : trim s = s := by
  rw [trim, trimStartMatches, dropWhile_eq_self hh, trimEndMatches, dropWhile_eq_self,
    List.reverse_reverse]
  rwa [List.head?_reverse]

theorem trim_eq_self_of_forall {s : Text} (h : ∀ c ∈ s, isWhitespace c = false) : trim s = s :=
  trim_eq_self (fun c hc => h c (List.mem_of_head? hc)) (fun c hc => h c (List.mem_of_getLast? hc))

theorem trim_trim (s : Text) : trim (trim s) = trim s := by
  refine trim_eq_self ?_ ?_
  · intro c hc
    have hp : trim s <+: trimStartMatches isWhitespace s := by
      rw [trim, trimEndMatches, ← List.reverse_suffix, List.reverse_reverse]
      exact List.dropWhile_suffix _
    obtain ⟨u, hu⟩ := hp
    have hhead : c ∈ (trimStartMatches isWhitespace s).head? := by
      rw [← hu, List.head?_append, hc]
      rfl
    exact head?_dropWhile _ c hhead
  · rw [trim, trimEndMatches, List.getLast?_reverse]
    exact head?_dropWhile _

theorem mem_of_mem_trim {c : Char} {s : Text} (h : c ∈ trim s) : c ∈ s := by
  rw [trim, trimEndMatches, List.mem_reverse] at h
  have h := List.mem_reverse.mp ((List.dropWhile_suffix _).mem h)
  exact (List.dropWhile_suffix _).mem h

theorem mem_trim {c : Char} {s : Text} (h : c ∈ s) (hc : isWhitespace c = false) : c ∈ trim s := by
  rw [trim, trimEndMatches, List.mem_reverse]
  exact mem_dropWhile (List.mem_reverse.mpr (mem_dropWhile h hc)) hc

end Textual
