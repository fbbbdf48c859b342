import Mathlib.Tactic.IntervalCases
import Mathlib.Tactic.Linarith
import ProjectCache.Lib.Text

namespace Calendar

open Textual

def digit (k : Nat) : Char := Char.ofNat (48 + k)

def pad : Nat → Nat → Text
  | 0, _ => []
  | w + 1, n => digit (n / 10 ^ w) :: pad w (n % 10 ^ w)

theorem digit_lt {a b : Nat} (ha : a < 10) (hb : b < 10) : digit a < digit b ↔ a < b := by
  have h : ∀ a b : Fin 10, digit a < digit b ↔ a < b := by decide
  exact h ⟨a, ha⟩ ⟨b, hb⟩

theorem digit_inj {a b : Nat} (ha : a < 10) (hb : b < 10) : digit a = digit b ↔ a = b := by
  have h : ∀ a b : Fin 10, digit a = digit b ↔ a = b := by decide
  have := h ⟨a, ha⟩ ⟨b, hb⟩
  simpa using this

theorem digit_range {a : Nat} (ha : a < 10) :
    digit 0 ≤ digit a ∧ '.' < digit a ∧ digit a < 'Z' ∧ '+' < digit a ∧ '-' < digit a := by
  have h : ∀ a : Fin 10, digit 0 ≤ digit a ∧ '.' < digit a ∧ digit a < 'Z' ∧ '+' < digit a ∧
      '-' < digit a := by decide
  exact h ⟨a, ha⟩

@[simp] theorem pad_length (w n : Nat) : (pad w n).length = w := by
  induction w generalizing n with
  | zero => rfl
  | succ w ih => simp [pad, ih]

theorem pad_digits {w n : Nat} (h : n < 10 ^ w) : ∀ c ∈ pad w n, ∃ k < 10, c = digit k := by
  induction w generalizing n with
  | zero => simp [pad]
  | succ w ih =>
    have hp : 0 < 10 ^ w := by positivity
    intro c hc
    rcases List.mem_cons.mp hc with rfl | hc
    · exact ⟨n / 10 ^ w, Nat.div_lt_of_lt_mul (by rwa [← pow_succ]), rfl⟩
    · exact ih (Nat.mod_lt n hp) c hc

theorem pad_lt {w m n : Nat} (hm : m < 10 ^ w) (hn : n < 10 ^ w) : pad w m < pad w n ↔ m < n := by
  induction w generalizing m n with
  | zero => simp_all [pad]
  | succ w ih =>
    have hp : 0 < 10 ^ w := by positivity
    have hdm : m / 10 ^ w < 10 := Nat.div_lt_of_lt_mul (by rwa [← pow_succ])
    have hdn : n / 10 ^ w < 10 := Nat.div_lt_of_lt_mul (by rwa [← pow_succ])
    have em := Nat.div_add_mod m (10 ^ w)
    have en := Nat.div_add_mod n (10 ^ w)
    have lm := Nat.mod_lt m hp
    have ln := Nat.mod_lt n hp
    rw [pad, pad, List.cons_lt_cons_iff, digit_lt hdm hdn, digit_inj hdm hdn, ih lm ln]
    constructor
    · rintro (h | ⟨h, hr⟩)
      · exact lt_of_not_ge (fun hge => absurd (Nat.div_le_div_right hge) (not_le.mpr h))
      · rw [← em, ← en, h]
        omega
    · intro h
      have hle := Nat.div_le_div_right (c := 10 ^ w) h.le
      rcases hle.lt_or_eq with hlt | heq
      · exact Or.inl hlt
      · refine Or.inr ⟨heq, ?_⟩
        rw [← em, ← en, heq] at h
        omega

theorem pad_inj {w m n : Nat} (hm : m < 10 ^ w) (hn : n < 10 ^ w) : pad w m = pad w n ↔ m = n := by
  refine ⟨fun h => ?_, fun h => h ▸ rfl⟩
  rcases lt_trichotomy m n with hlt | heq | hgt
  · exact absurd ((pad_lt hm hn).mpr hlt) (h ▸ lt_irrefl _)
  · exact heq
  · exact absurd ((pad_lt hn hm).mpr hgt) (h ▸ lt_irrefl _)

theorem append_lt_append {a b x y : Text} (h : a.length = b.length) :
    a ++ x < b ++ y ↔ a < b ∨ a = b ∧ x < y := by
  induction a generalizing b with
  | nil =>
    cases b with
    | nil => simp
    | cons c b => simp at h
  | cons c a ih =>
    cases b with
    | nil => simp at h
    | cons d b =>
      simp only [List.length_cons, Nat.add_right_cancel_iff] at h
      rw [List.cons_append, List.cons_append, List.cons_lt_cons_iff, List.cons_lt_cons_iff, ih h,
        List.cons.injEq]
      tauto

theorem append_lt_append_left (a : Text) {x y : Text} : a ++ x < a ++ y ↔ x < y := by
  rw [append_lt_append rfl]
  simp

theorem pad_append_lt {w m n : Nat} (hm : m < 10 ^ w) (hn : n < 10 ^ w) {x y : Text} :
    pad w m ++ x < pad w n ++ y ↔ m < n ∨ m = n ∧ x < y := by
  rw [append_lt_append (by simp), pad_lt hm hn, pad_inj hm hn]

def isLeap (year : Nat) : Bool := year % 4 = 0 && (year % 100 ≠ 0 || year % 400 = 0)

def daysInMonth (leap : Bool) : Nat → Nat
  | 1 | 3 | 5 | 7 | 8 | 10 | 12 => 31
  | 4 | 6 | 9 | 11 => 30
  | 2 => if leap then 29 else 28
  | _ => 0

def monthStart (leap : Bool) : Nat → Nat
  | 0 => 0
  | m + 1 => monthStart leap m + daysInMonth leap m

def yearStart : Nat → Nat
  | 0 => 0
  | y + 1 => yearStart y + if isLeap y then 366 else 365

structure CivilTime where
  year : Nat
  month : Nat
  day : Nat
  hour : Nat
  minute : Nat
  second : Nat
  year_le : year ≤ 9999
  month_pos : 1 ≤ month
  month_le : month ≤ 12
  day_pos : 1 ≤ day
  day_le : day ≤ daysInMonth (isLeap year) month
  hour_lt : hour < 24
  minute_lt : minute < 60
  second_lt : second < 60
  deriving DecidableEq

namespace CivilTime

def newYear (year hour : Nat) : CivilTime where
  year := year % 10000
  month := 1
  day := 1
  hour := hour % 24
  minute := 0
  second := 0
  year_le := by omega
  month_pos := by decide
  month_le := by decide
  day_pos := by decide
  day_le := by simp [daysInMonth]
  hour_lt := Nat.mod_lt hour (by decide)
  minute_lt := by decide
  second_lt := by decide

def dayNumber (t : CivilTime) : Nat :=
  yearStart t.year + monthStart (isLeap t.year) t.month + (t.day - 1)

def seconds (t : CivilTime) : Nat :=
  t.dayNumber * 86400 + t.hour * 3600 + t.minute * 60 + t.second

def format (t : CivilTime) : Text :=
  pad 4 t.year ++ '-' :: (pad 2 t.month ++ '-' :: (pad 2 t.day ++ 'T' :: (pad 2 t.hour ++
    ':' :: (pad 2 t.minute ++ ':' :: pad 2 t.second))))

end CivilTime

theorem monthStart_add_le (leap : Bool) {m n : Nat} (h : m < n) :
    monthStart leap m + daysInMonth leap m ≤ monthStart leap n := by
  induction n with
  | zero => omega
  | succ n ih =>
    rcases Nat.lt_succ_iff_lt_or_eq.mp h with hlt | rfl
    · exact (ih hlt).trans (Nat.le_add_right _ _)
    · exact le_rfl

theorem yearStart_add_le {m n : Nat} (h : m < n) :
    (yearStart m + if isLeap m then 366 else 365) ≤ yearStart n := by
  induction n with
  | zero => omega
  | succ n ih =>
    rcases Nat.lt_succ_iff_lt_or_eq.mp h with hlt | rfl
    · exact (ih hlt).trans (Nat.le_add_right _ _)
    · exact le_rfl

theorem daysInMonth_le (leap : Bool) (m : Nat) : daysInMonth leap m ≤ 31 := by
  unfold daysInMonth
  split <;> (try split) <;> omega

namespace CivilTime

theorem day_lt_hundred (t : CivilTime) : t.day < 100 := by
  have := t.day_le
  have := daysInMonth_le (isLeap t.year) t.month
  omega

theorem day_end_le (t : CivilTime) :
    monthStart (isLeap t.year) t.month + t.day ≤ if isLeap t.year then 366 else 365 := by
  have hm := monthStart_add_le (isLeap t.year) (Nat.lt_succ_of_le t.month_le)
  have hd := t.day_le
  have hy : monthStart (isLeap t.year) 13 = if isLeap t.year then 366 else 365 := by
    cases isLeap t.year <;> rfl
  have hs : Nat.succ 12 = 13 := rfl
  rw [hs, hy] at hm
  omega

def Before (a b : CivilTime) : Prop :=
  a.year < b.year ∨ a.year = b.year ∧ (a.month < b.month ∨ a.month = b.month ∧
    (a.day < b.day ∨ a.day = b.day ∧ (a.hour < b.hour ∨ a.hour = b.hour ∧
      (a.minute < b.minute ∨ a.minute = b.minute ∧ a.second < b.second))))

theorem format_lt (a b : CivilTime) : a.format < b.format ↔ a.Before b := by
  have h4 (t : CivilTime) : t.year < 10 ^ 4 := Nat.lt_of_le_of_lt t.year_le (by norm_num)
  have hm (t : CivilTime) : t.month < 10 ^ 2 := Nat.lt_of_le_of_lt t.month_le (by norm_num)
  have hd (t : CivilTime) : t.day < 10 ^ 2 := t.day_lt_hundred
  have hh (t : CivilTime) : t.hour < 10 ^ 2 := t.hour_lt.trans (by norm_num)
  have hi (t : CivilTime) : t.minute < 10 ^ 2 := t.minute_lt.trans (by norm_num)
  have hs (t : CivilTime) : t.second < 10 ^ 2 := t.second_lt.trans (by norm_num)
  have hc (c : Char) (x y : Text) : c :: x < c :: y ↔ x < y := by
    rw [List.cons_lt_cons_iff]
    simp
  rw [format, format, pad_append_lt (h4 a) (h4 b), hc, pad_append_lt (hm a) (hm b), hc,
    pad_append_lt (hd a) (hd b), hc, pad_append_lt (hh a) (hh b), hc,
    pad_append_lt (hi a) (hi b), hc, pad_lt (hs a) (hs b)]
  rfl

theorem Before.dayNumber_lt {a b : CivilTime} (h : a.year < b.year ∨ a.year = b.year ∧
    (a.month < b.month ∨ a.month = b.month ∧ a.day < b.day)) : a.dayNumber < b.dayNumber := by
  have hap := a.day_pos
  have hbp := b.day_pos
  unfold dayNumber
  rcases h with hy | ⟨hy, hm | ⟨hm, hd⟩⟩
  · have hys := yearStart_add_le hy
    have hae := a.day_end_le
    omega
  · have hms := monthStart_add_le (isLeap b.year) hm
    have hae := a.day_le
    rw [hy] at hae ⊢
    omega
  · rw [hy, hm]
    omega

theorem Before.seconds_lt {a b : CivilTime} (h : a.Before b) : a.seconds < b.seconds := by
  have hah := a.hour_lt
  have hai := a.minute_lt
  have has := a.second_lt
  unfold seconds
  by_cases hd : a.dayNumber < b.dayNumber
  · omega
  · have hsame : a.year = b.year ∧ a.month = b.month ∧ a.day = b.day ∧
        (a.hour < b.hour ∨ a.hour = b.hour ∧
          (a.minute < b.minute ∨ a.minute = b.minute ∧ a.second < b.second)) := by
      rcases h with h | ⟨hy, h | ⟨hm, h | ⟨hd', h⟩⟩⟩
      · exact absurd (Before.dayNumber_lt (Or.inl h)) hd
      · exact absurd (Before.dayNumber_lt (Or.inr ⟨hy, Or.inl h⟩)) hd
      · exact absurd (Before.dayNumber_lt (Or.inr ⟨hy, Or.inr ⟨hm, h⟩⟩)) hd
      · exact ⟨hy, hm, hd', h⟩
    obtain ⟨hy, hm, hdd, h⟩ := hsame
    have he : a.dayNumber = b.dayNumber := by rw [dayNumber, dayNumber, hy, hm, hdd]
    omega

theorem before_trichotomy (a b : CivilTime) : a.Before b ∨ a = b ∨ b.Before a := by
  have hab : a.year = b.year → a.month = b.month → a.day = b.day → a.hour = b.hour →
      a.minute = b.minute → a.second = b.second → a = b := by
    cases a
    cases b
    simp_all
  unfold Before
  by_cases a.year = b.year <;> by_cases a.month = b.month <;> by_cases a.day = b.day <;>
    by_cases a.hour = b.hour <;> by_cases a.minute = b.minute <;> by_cases a.second = b.second <;>
    first
    | exact Or.inr (Or.inl (hab ‹_› ‹_› ‹_› ‹_› ‹_› ‹_›))
    | omega

theorem seconds_lt_iff (a b : CivilTime) : a.seconds < b.seconds ↔ a.format < b.format := by
  rw [format_lt]
  refine ⟨fun h => ?_, Before.seconds_lt⟩
  rcases before_trichotomy a b with hb | rfl | hb
  · exact hb
  · exact absurd h (lt_irrefl _)
  · exact absurd hb.seconds_lt h.le.not_gt

theorem seconds_eq_iff (a b : CivilTime) : a.seconds = b.seconds ↔ a = b := by
  refine ⟨fun h => ?_, fun h => h ▸ rfl⟩
  rcases before_trichotomy a b with hb | rfl | hb
  · exact absurd hb.seconds_lt h.not_lt
  · rfl
  · exact absurd hb.seconds_lt h.not_gt

theorem format_length (t : CivilTime) : t.format.length = 19 := by
  simp [format]

end CivilTime

def fractionDigits (n : Nat) : Text := trimEndMatches (· = '0') (pad 9 n)

def fraction (n : Nat) : Text := if n = 0 then [] else '.' :: fractionDigits n

def zone (offset : Int) : Text :=
  if offset = 0 then ['Z']
  else
    (if offset < 0 then '-' else '+') ::
      (pad 2 (offset.natAbs / 60) ++ ':' :: pad 2 (offset.natAbs % 60))

theorem trimEnd_append_replicate (s : Text) :
    ∃ k, s = trimEndMatches (· = '0') s ++ List.replicate k '0' := by
  have hz : ∀ c ∈ s.reverse.takeWhile (· = '0'), c = '0' := fun c hc => by
    simpa using List.mem_takeWhile_imp hc
  have hsplit : s.reverse.takeWhile (· = '0') ++ s.reverse.dropWhile (· = '0') = s.reverse :=
    List.takeWhile_append_dropWhile
  refine ⟨(s.reverse.takeWhile (· = '0')).length, ?_⟩
  calc
    s = s.reverse.reverse := (List.reverse_reverse s).symm
    _ = (s.reverse.takeWhile (· = '0') ++ s.reverse.dropWhile (· = '0')).reverse := by rw [hsplit]
    _ = trimEndMatches (· = '0') s ++ (s.reverse.takeWhile (· = '0')).reverse := by
      rw [List.reverse_append, trimEndMatches]
    _ = _ := by
      rw [List.eq_replicate_of_mem hz, List.reverse_replicate, List.length_replicate]

theorem pad_eq_fractionDigits (n : Nat) :
    ∃ k, pad 9 n = fractionDigits n ++ List.replicate k '0' := trimEnd_append_replicate _

theorem fractionDigits_digits {n : Nat} (h : n < 10 ^ 9) :
    ∀ c ∈ fractionDigits n, ∃ k < 10, c = digit k := by
  obtain ⟨k, hk⟩ := pad_eq_fractionDigits n
  exact fun c hc => pad_digits h c (hk ▸ List.mem_append_left _ hc)

theorem fractionDigits_inj {a b : Nat} (ha : a < 10 ^ 9) (hb : b < 10 ^ 9) :
    fractionDigits a = fractionDigits b ↔ a = b := by
  refine ⟨fun h => ?_, fun h => h ▸ rfl⟩
  obtain ⟨i, hi⟩ := pad_eq_fractionDigits a
  obtain ⟨j, hj⟩ := pad_eq_fractionDigits b
  have hl : i = j := by
    have h1 := congrArg List.length hi
    have h2 := congrArg List.length hj
    simp only [pad_length, List.length_append, List.length_replicate, h] at h1 h2
    omega
  exact (pad_inj ha hb).mp (by rw [hi, hj, h, hl])

@[simp] theorem fractionDigits_zero : fractionDigits 0 = [] := by decide

theorem replicate_zero_le {s : Text} (h : ∀ c ∈ s, ∃ k < 10, c = digit k) :
    ¬ s < List.replicate s.length '0' := by
  induction s with
  | nil => simp
  | cons c s ih =>
    obtain ⟨k, hk, rfl⟩ := h c (by simp)
    rw [List.length_cons, List.replicate_succ, List.cons_lt_cons_iff]
    rintro (hlt | ⟨-, hlt⟩)
    · exact absurd (digit_range hk).1 (not_le.mpr hlt)
    · exact ih (fun d hd => h d (by simp [hd])) hlt

theorem lt_of_fractionDigits_append {a b : Nat} (ha : a < 10 ^ 9) (hb : b < 10 ^ 9) {w : Text}
    (hw : w ≠ []) (h : fractionDigits b = fractionDigits a ++ w) : a < b := by
  obtain ⟨i, hi⟩ := pad_eq_fractionDigits a
  obtain ⟨j, hj⟩ := pad_eq_fractionDigits b
  have hne : a ≠ b := by
    rintro rfl
    exact hw (by simpa using h)
  by_contra hab
  have hlt : b < a := by omega
  rw [← pad_lt hb ha, hi, hj, h, List.append_assoc, append_lt_append_left] at hlt
  have hlen : (w ++ List.replicate j '0').length = i := by
    have h1 := congrArg List.length hi
    have h2 := congrArg List.length hj
    simp only [pad_length, h, List.length_append, List.length_replicate] at h1 h2
    simp only [List.length_append, List.length_replicate]
    omega
  have hdigits : ∀ c ∈ w ++ List.replicate j '0', ∃ k < 10, c = digit k := by
    intro c hc
    apply pad_digits hb c
    rw [hj, h, List.append_assoc]
    exact List.mem_append_right _ hc
  exact replicate_zero_le hdigits (hlen ▸ hlt)

theorem prefix_or_differ (u v : Text) : u <+: v ∨ v <+: u ∨
    ∃ p c d u' v', u = p ++ c :: u' ∧ v = p ++ d :: v' ∧ c ≠ d := by
  induction u generalizing v with
  | nil => exact Or.inl List.nil_prefix
  | cons c u ih =>
    cases v with
    | nil => exact Or.inr (Or.inl List.nil_prefix)
    | cons d v =>
      by_cases hcd : c = d
      · subst hcd
        rcases ih v with h | h | ⟨p, x, y, u', v', rfl, rfl, hxy⟩
        · exact Or.inl ((List.prefix_cons_inj c).mpr h)
        · exact Or.inr (Or.inl ((List.prefix_cons_inj c).mpr h))
        · exact Or.inr (Or.inr ⟨c :: p, x, y, u', v', rfl, rfl, hxy⟩)
      · exact Or.inr (Or.inr ⟨[], c, d, u, v, rfl, rfl, hcd⟩)

def PrefixRelated (a b : Nat) : Prop :=
  fractionDigits a <+: fractionDigits b ∨ fractionDigits b <+: fractionDigits a

instance (a b : Nat) : Decidable (PrefixRelated a b) := by
  unfold PrefixRelated
  infer_instance

theorem fraction_of_ne {n : Nat} (h : n ≠ 0) : fraction n = '.' :: fractionDigits n := if_neg h

theorem cons_lt_cons_of_ne {c d : Char} {x y : Text} (h : c ≠ d) : c :: x < d :: y ↔ c < d := by
  rw [List.cons_lt_cons_iff]
  simp [h]

theorem fraction_lt_of_not_prefixRelated {a b : Nat} (ha : a < 10 ^ 9) (hb : b < 10 ^ 9)
    (h : ¬ PrefixRelated a b) (x y : Text) : fraction a ++ x < fraction b ++ y ↔ a < b := by
  have hne : a ≠ 0 ∧ b ≠ 0 := by
    refine ⟨?_, ?_⟩ <;> rintro rfl <;> simp [PrefixRelated] at h
  rcases prefix_or_differ (fractionDigits a) (fractionDigits b) with hp | hp |
    ⟨p, c, d, u, v, hu, hv, hcd⟩
  · exact absurd (Or.inl hp) h
  · exact absurd (Or.inr hp) h
  · obtain ⟨i, hi⟩ := pad_eq_fractionDigits a
    obtain ⟨j, hj⟩ := pad_eq_fractionDigits b
    have htext : ∀ s t : Text, p ++ c :: s < p ++ d :: t ↔ c < d := fun s t => by
      rw [append_lt_append_left, cons_lt_cons_of_ne hcd]
    rw [← pad_lt ha hb, hi, hj, hu, hv, fraction_of_ne hne.1, fraction_of_ne hne.2, hu, hv]
    simp only [List.cons_append, List.append_assoc, htext]
    rw [List.cons_lt_cons_iff, htext]
    simp

theorem fraction_append_lt {a b : Nat} (ha : a < 10 ^ 9) (hb : b < 10 ^ 9) (hlt : a < b)
    (h : PrefixRelated a b) : ∃ q c r, fraction a = q ∧ fraction b = q ++ c :: r ∧
      (c = '.' ∨ ∃ k < 10, c = digit k) := by
  have hp : fractionDigits a <+: fractionDigits b := by
    rcases h with h | ⟨w, hw⟩
    · exact h
    · by_cases hn : w = []
      · rw [hn, List.append_nil, fractionDigits_inj hb ha] at hw
        omega
      · exact absurd (lt_of_fractionDigits_append hb ha hn hw.symm) (by omega)
  obtain ⟨w, hw⟩ := hp
  have hwn : w ≠ [] := by
    rintro rfl
    rw [List.append_nil, fractionDigits_inj ha hb] at hw
    omega
  obtain ⟨c, r, rfl⟩ := List.exists_cons_of_ne_nil hwn
  by_cases h0 : a = 0
  · subst h0
    exact ⟨[], '.', fractionDigits b, rfl, fraction_of_ne (by omega), Or.inl rfl⟩
  · refine ⟨fraction a, c, r, rfl, ?_, Or.inr ?_⟩
    · rw [fraction_of_ne h0, fraction_of_ne (by omega), List.cons_append, hw]
    · exact fractionDigits_digits hb c (hw ▸ by simp)

theorem PrefixRelated.symm {a b : Nat} (h : PrefixRelated a b) : PrefixRelated b a := Or.symm h

theorem fraction_utc_lt {a b : Nat} (ha : a < 10 ^ 9) (hb : b < 10 ^ 9) :
    fraction a ++ ['Z'] < fraction b ++ ['Z'] ↔
      if PrefixRelated a b then b < a else a < b := by
  split
  · rename_i h
    rcases lt_trichotomy a b with hlt | rfl | hlt
    · obtain ⟨q, c, r, hq, hr, hc⟩ := fraction_append_lt ha hb hlt h
      have hz : c < 'Z' := by
        rcases hc with rfl | ⟨k, hk, rfl⟩
        · decide
        · exact (digit_range hk).2.2.1
      rw [hq, hr, List.append_assoc, append_lt_append_left, List.cons_append,
        cons_lt_cons_of_ne hz.ne']
      simp [hz.not_gt, hlt.not_gt]
    · simp
    · obtain ⟨q, c, r, hq, hr, hc⟩ := fraction_append_lt hb ha hlt h.symm
      have hz : c < 'Z' := by
        rcases hc with rfl | ⟨k, hk, rfl⟩
        · decide
        · exact (digit_range hk).2.2.1
      rw [hq, hr, List.append_assoc, append_lt_append_left, List.cons_append, List.cons_lt_cons_iff]
      simp [hz, hlt]
  · rename_i h
    exact fraction_lt_of_not_prefixRelated ha hb h _ _

theorem fraction_offset_lt {a b : Nat} (ha : a < 10 ^ 9) (hb : b < 10 ^ 9) {z : Char} {zs : Text}
    (hz : z = '+' ∨ z = '-') :
    fraction a ++ ['Z'] < fraction b ++ z :: zs ↔ ¬ PrefixRelated a b ∧ a < b := by
  by_cases h : PrefixRelated a b
  · simp only [h, not_true_eq_false, false_and, iff_false]
    rcases lt_trichotomy a b with hlt | rfl | hlt
    · obtain ⟨q, c, r, hq, hr, hc⟩ := fraction_append_lt ha hb hlt h
      have hzc : 'Z' ≠ c ∧ ¬ 'Z' < c := by
        rcases hc with rfl | ⟨k, hk, rfl⟩
        · decide
        · exact ⟨(digit_range hk).2.2.1.ne', (digit_range hk).2.2.1.not_gt⟩
      rw [hq, hr, List.append_assoc, append_lt_append_left, List.cons_append, List.cons_lt_cons_iff]
      simp [hzc]
    · have hZ : z < 'Z' := by rcases hz with rfl | rfl <;> decide
      rw [append_lt_append_left, cons_lt_cons_of_ne hZ.ne']
      exact hZ.not_gt
    · obtain ⟨q, c, r, hq, hr, hc⟩ := fraction_append_lt hb ha hlt h.symm
      have hzc : c ≠ z ∧ ¬ c < z := by
        rcases hc with rfl | ⟨k, hk, rfl⟩ <;> rcases hz with rfl | rfl
        · decide
        · decide
        · exact ⟨(digit_range hk).2.2.2.1.ne', (digit_range hk).2.2.2.1.not_gt⟩
        · exact ⟨(digit_range hk).2.2.2.2.ne', (digit_range hk).2.2.2.2.not_gt⟩
      rw [hq, hr, List.append_assoc, append_lt_append_left, List.cons_append, List.cons_lt_cons_iff]
      simp [hzc]
  · simp only [h, not_false_eq_true, true_and]
    exact fraction_lt_of_not_prefixRelated ha hb h _ _

structure OffsetDateTime where
  civil : CivilTime
  nanosecond : Nat
  nanosecond_lt : nanosecond < 10 ^ 9
  offset : Int
  offset_lt : offset.natAbs < 1440
  deriving DecidableEq

namespace OffsetDateTime

def format (t : OffsetDateTime) : Text :=
  t.civil.format ++ (fraction t.nanosecond ++ zone t.offset)

def instant (t : OffsetDateTime) : Int :=
  ((t.civil.seconds : Int) - 60 * t.offset) * 1000000000 + t.nanosecond

theorem civil_format_inj {a b : CivilTime} : a.format = b.format ↔ a = b := by
  refine ⟨fun h => ?_, fun h => h ▸ rfl⟩
  rcases a.before_trichotomy b with hb | rfl | hb
  · exact absurd ((a.format_lt b).mpr hb) (h ▸ lt_irrefl _)
  · rfl
  · exact absurd ((b.format_lt a).mpr hb) (h ▸ lt_irrefl _)

theorem format_lt (a b : OffsetDateTime) : a.format < b.format ↔
    a.civil.seconds < b.civil.seconds ∨ a.civil.seconds = b.civil.seconds ∧
      fraction a.nanosecond ++ zone a.offset < fraction b.nanosecond ++ zone b.offset := by
  rw [format, format, append_lt_append (by rw [CivilTime.format_length, CivilTime.format_length]),
    ← CivilTime.seconds_lt_iff, civil_format_inj, ← CivilTime.seconds_eq_iff]

def WallClockAfter (e now : OffsetDateTime) : Prop :=
  now.civil.seconds < e.civil.seconds ∨ now.civil.seconds = e.civil.seconds ∧
    ¬ PrefixRelated now.nanosecond e.nanosecond ∧ now.nanosecond < e.nanosecond

structure TextDecides (e now : OffsetDateTime) : Prop where
  utc : e.offset = 0 → now.civil.seconds = e.civil.seconds →
    now.nanosecond ≠ e.nanosecond → ¬ PrefixRelated now.nanosecond e.nanosecond
  ahead : 0 < e.offset → e.instant ≤ now.instant → ¬ e.WallClockAfter now
  behind : e.offset < 0 → now.instant < e.instant → e.WallClockAfter now

theorem format_lt_utc {e now : OffsetDateTime} (hn : now.offset = 0) (he : e.offset = 0) :
    now.format < e.format ↔ now.civil.seconds < e.civil.seconds ∨
      now.civil.seconds = e.civil.seconds ∧
        if PrefixRelated now.nanosecond e.nanosecond then e.nanosecond < now.nanosecond
        else now.nanosecond < e.nanosecond := by
  rw [OffsetDateTime.format_lt, hn, he, zone, if_pos rfl,
    fraction_utc_lt now.nanosecond_lt e.nanosecond_lt]

theorem format_lt_offset {e now : OffsetDateTime} (hn : now.offset = 0) (he : e.offset ≠ 0) :
    now.format < e.format ↔ e.WallClockAfter now := by
  have hz : (if e.offset < 0 then '-' else '+') = '+' ∨
      (if e.offset < 0 then '-' else '+') = '-' := by
    split
    · exact Or.inr rfl
    · exact Or.inl rfl
  rw [OffsetDateTime.format_lt, hn, WallClockAfter]
  simp only [zone, if_pos, if_neg he]
  rw [fraction_offset_lt now.nanosecond_lt e.nanosecond_lt hz]

theorem format_decides_iff {e now : OffsetDateTime} (hn : now.offset = 0) :
    (now.format < e.format ↔ now.instant < e.instant) ↔ e.TextDecides now := by
  have hen := e.nanosecond_lt
  have hnn := now.nanosecond_lt
  rcases lt_trichotomy e.offset 0 with hlt | he | hgt
  · have hin : e.WallClockAfter now → now.instant < e.instant := by
      unfold WallClockAfter instant
      rw [hn]
      omega
    rw [format_lt_offset hn hlt.ne]
    exact ⟨fun h => ⟨fun h0 => absurd h0 hlt.ne, fun hp => absurd hp hlt.not_gt,
      fun _ hi => h.mpr hi⟩, fun h => ⟨hin, h.behind hlt⟩⟩
  · have hi : now.instant < e.instant ↔ now.civil.seconds < e.civil.seconds ∨
        now.civil.seconds = e.civil.seconds ∧ now.nanosecond < e.nanosecond := by
      unfold instant
      rw [hn, he]
      omega
    rw [format_lt_utc hn he, hi]
    constructor
    · refine fun h => ⟨fun _ hs hne hr => ?_, fun hp => absurd he hp.ne', fun hp => absurd he hp.ne⟩
      rw [if_pos hr] at h
      omega
    · intro h
      by_cases hs : now.civil.seconds = e.civil.seconds
      · by_cases hr : PrefixRelated now.nanosecond e.nanosecond
        · have : now.nanosecond = e.nanosecond := by
            by_contra hne
            exact h.utc he hs hne hr
          rw [if_pos hr, this]
        · rw [if_neg hr]
      · simp only [hs, false_and, or_false]
  · have hin : now.instant < e.instant → e.WallClockAfter now := by
      unfold WallClockAfter instant
      rw [hn]
      intro h
      omega
    rw [format_lt_offset hn hgt.ne']
    refine ⟨fun h => ⟨fun h0 => absurd h0 hgt.ne', fun _ hle hw => ?_, fun hp =>
      absurd hp hgt.not_gt⟩, fun h => ⟨fun hw => ?_, hin⟩⟩
    · exact absurd (h.mp hw) hle.not_gt
    · by_contra hni
      exact h.ahead hgt (not_lt.mp hni) hw

end OffsetDateTime

structure UtcDateTime where
  civil : CivilTime
  nanosecond : Nat
  nanosecond_lt : nanosecond < 10 ^ 9
  deriving DecidableEq

namespace UtcDateTime

def whole (civil : CivilTime) : UtcDateTime := ⟨civil, 0, by decide⟩

def toOffset (t : UtcDateTime) : OffsetDateTime where
  civil := t.civil
  nanosecond := t.nanosecond
  nanosecond_lt := t.nanosecond_lt
  offset := 0
  offset_lt := by decide

def format (t : UtcDateTime) : Text := t.toOffset.format

def instant (t : UtcDateTime) : Int := t.toOffset.instant

end UtcDateTime

end Calendar
