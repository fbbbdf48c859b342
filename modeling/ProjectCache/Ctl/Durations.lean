import ProjectCache.Lib.Text

namespace Ctl

open Textual

inductive DurationError where
  | invalidDuration (value : Text)
  | invalidAmount (value : Text)
  deriving DecidableEq

def forever : Text := "forever".toList

def durationParts (value : Text) : Option (Text × UInt64) :=
  ((((stripSuffix ['d'] value).map (fun number => (number, 24 * 60 * 60))).or
    ((stripSuffix ['h'] value).map (fun number => (number, 60 * 60)))).or
    ((stripSuffix ['m'] value).map (fun number => (number, 60)))).or
    ((stripSuffix ['s'] value).map (fun number => (number, 1)))

-- The product wraps, as it does in a release build.
def parseDurationSeconds (value : Text) : Except DurationError (Option UInt64) :=
  let value := trim value
  if value = forever then .ok none
  else
    match durationParts value with
    | none => .error (.invalidDuration value)
    | some (number, multiplier) =>
      match parseU64 number with
      | none => .error (.invalidAmount value)
      | some amount => .ok (some (amount * multiplier))

def DAY : UInt64 := 24 * 60 * 60

def HOUR : UInt64 := 60 * 60

def MINUTE : UInt64 := 60

def formatDurationSeconds (seconds : UInt64) : Text :=
  if seconds % DAY = 0 then decimal (seconds / DAY).toNat ++ ['d']
  else if seconds % HOUR = 0 then decimal (seconds / HOUR).toNat ++ ['h']
  else if seconds % MINUTE = 0 then decimal (seconds / MINUTE).toNat ++ ['m']
  else decimal seconds.toNat ++ ['s']

structure ProjectRetentionRuleInfo where
  priority : UInt32
  refPattern : Text
  ttlSeconds : Option UInt64
  keepBuilds : Option UInt32
  deriving DecidableEq

inductive RetentionRuleError where
  | invalidRule (value : Text)
  | invalidPriority (value : Text)
  | zeroPriority
  | emptyRefPattern
  | duration (error : DurationError)
  | invalidKeepBuilds (value : Text)
  | zeroKeepBuilds
  deriving DecidableEq

def splitn (c : Char) : Nat → Text → List Text
  | 0, _ => []
  | 1, s => [s]
  | n + 2, s =>
    match splitOnce c s with
    | none => [s]
    | some (part, rest) => part :: splitn c (n + 1) rest

def parseU32 (s : Text) : Option UInt32 :=
  (parseU64 s).bind (fun value => if value.toNat < 2 ^ 32 then some value.toUInt32 else none)

def parseKeepBuilds (value : Text) : Except RetentionRuleError (Option UInt32) :=
  let value := trim value
  if value = "default".toList then .ok none
  else
    match parseU32 value with
    | none => .error (.invalidKeepBuilds value)
    | some keepBuilds => if keepBuilds = 0 then .error .zeroKeepBuilds else .ok (some keepBuilds)

def parseRetentionRule (value : Text) : Except RetentionRuleError ProjectRetentionRuleInfo :=
  match splitn ':' 4 value with
  | [priority, refPattern, ttl, keepBuilds] =>
    match parseU32 priority with
    | none => .error (.invalidPriority value)
    | some priority =>
      if priority = 0 then .error .zeroPriority
      else if trim refPattern = [] then .error .emptyRefPattern
      else do
        let ttlSeconds ← (parseDurationSeconds ttl).mapError .duration
        let keepBuilds ← parseKeepBuilds keepBuilds
        return { priority, refPattern := trim refPattern, ttlSeconds, keepBuilds }
  | _ => .error (.invalidRule value)

def unitSeconds : Char → Option Nat
  | 'd' => some 86400
  | 'h' => some 3600
  | 'm' => some 60
  | 's' => some 1
  | _ => none

def WritesSeconds (value : Text) (seconds : Nat) : Prop :=
  ∃ number c unit amount, trim value = number ++ [c] ∧ unitSeconds c = some unit ∧
    parseU64 number = some amount ∧ seconds = amount.toNat * unit

def Exact (value : Text) : Prop :=
  match parseDurationSeconds value with
  | .error _ => ¬ trim value = forever
  | .ok none => trim value = forever
  | .ok (some seconds) => WritesSeconds value seconds.toNat

def Fits (value : Text) : Prop := ∀ seconds, WritesSeconds value seconds → seconds < 2 ^ 64

theorem WritesSeconds.unique {value : Text} {a b : Nat} (ha : WritesSeconds value a)
    (hb : WritesSeconds value b) : a = b := by
  obtain ⟨number, c, unit, amount, ht, hu, hp, rfl⟩ := ha
  obtain ⟨number', c', unit', amount', ht', hu', hp', rfl⟩ := hb
  obtain ⟨rfl, hc⟩ := List.append_inj' (ht.symm.trans ht') rfl
  obtain rfl := List.singleton_inj.mp hc
  rw [hu, Option.some.injEq] at hu'
  rw [hp, Option.some.injEq] at hp'
  rw [hu', hp']

theorem stripSuffix_concat (number : Text) (c d : Char) :
    stripSuffix [d] (number ++ [c]) = if d = c then some number else none := by
  split
  · rename_i h
    subst h
    exact stripSuffix_eq_some.mpr rfl
  · rename_i h
    rw [Option.eq_none_iff_forall_ne_some]
    intro r hr
    have hlast := (List.append_inj' (stripSuffix_eq_some.mp hr) rfl).2
    exact h (List.singleton_inj.mp hlast).symm

theorem durationParts_concat (number : Text) (c : Char) :
    durationParts (number ++ [c]) =
      (unitSeconds c).map (fun unit => (number, UInt64.ofNat unit)) := by
  unfold durationParts
  simp only [stripSuffix_concat]
  by_cases hd : 'd' = c
  · subst hd; rfl
  by_cases hh : 'h' = c
  · subst hh; rfl
  by_cases hm : 'm' = c
  · subst hm; rfl
  by_cases hs : 's' = c
  · subst hs; rfl
  have hnone : unitSeconds c = none := by
    unfold unitSeconds
    split <;> simp_all
  simp [hd, hh, hm, hs, hnone]

theorem durationParts_eq_some {value number : Text} {multiplier : UInt64}
    (h : durationParts value = some (number, multiplier)) :
    ∃ c unit, value = number ++ [c] ∧ unitSeconds c = some unit ∧
      multiplier = UInt64.ofNat unit := by
  cases value using List.reverseRecOn with
  | nil => cases h
  | append_singleton rest c =>
    rw [durationParts_concat, Option.map_eq_some_iff] at h
    obtain ⟨unit, hu, h⟩ := h
    simp only [Prod.mk.injEq] at h
    exact ⟨c, unit, by rw [h.1], hu, h.2.symm⟩

theorem unitSeconds_cases {c : Char} {unit : Nat} (h : unitSeconds c = some unit) :
    c ≠ 'r' ∧ isWhitespace c = false ∧ 0 < unit ∧ unit < 2 ^ 64 := by
  unfold unitSeconds at h
  split at h
  case h_5 => cases h
  all_goals
    cases h
    decide

theorem parse_written {value number : Text} {c : Char} {unit : Nat} {amount : UInt64}
    (ht : trim value = number ++ [c]) (hu : unitSeconds c = some unit)
    (hp : parseU64 number = some amount) :
    parseDurationSeconds value = .ok (some (amount * UInt64.ofNat unit)) := by
  have hne : number ++ [c] ≠ forever := by
    intro h
    have hlast := congrArg List.getLast? h
    rw [List.getLast?_concat] at hlast
    exact (unitSeconds_cases hu).1 (Option.some.inj hlast)
  simp only [parseDurationSeconds, ht, if_neg hne, durationParts_concat, hu, Option.map_some, hp]

theorem parse_ok_none {value : Text} (h : parseDurationSeconds value = .ok none) :
    trim value = forever := by
  unfold parseDurationSeconds at h
  dsimp only at h
  split at h
  · assumption
  · split at h
    · cases h
    · split at h <;> cases h

theorem parse_ok_some {value : Text} {seconds : UInt64}
    (h : parseDurationSeconds value = .ok (some seconds)) :
    ∃ number c unit amount, trim value = number ++ [c] ∧ unitSeconds c = some unit ∧
      parseU64 number = some amount ∧ seconds = amount * UInt64.ofNat unit := by
  unfold parseDurationSeconds at h
  dsimp only at h
  split at h
  · cases h
  · split at h
    · cases h
    · rename_i number multiplier hparts
      obtain ⟨c, unit, ht, hu, rfl⟩ := durationParts_eq_some hparts
      split at h
      · cases h
      · rename_i amount hp
        exact ⟨number, c, unit, amount, ht, hu, hp, (Option.some.inj (Except.ok.inj h)).symm⟩

theorem product_toNat {amount : UInt64} {c : Char} {unit : Nat} (hu : unitSeconds c = some unit) :
    (amount * UInt64.ofNat unit).toNat = amount.toNat * unit % 2 ^ 64 := by
  rw [UInt64.toNat_mul, UInt64.toNat_ofNat_of_lt' (unitSeconds_cases hu).2.2.2]

theorem exact_iff_fits (value : Text) : Exact value ↔ Fits value := by
  have hfits : ∀ {seconds}, WritesSeconds value seconds → (Fits value ↔ seconds < 2 ^ 64) :=
    fun hw => ⟨fun h => h _ hw, fun h other ho => ho.unique hw ▸ h⟩
  unfold Exact
  split
  · rename_i error hparse
    refine iff_of_true (fun hforever => ?_) (fun seconds hw => ?_)
    · simp [parseDurationSeconds, hforever] at hparse
    · obtain ⟨number, c, unit, amount, ht, hu, hp, -⟩ := hw
      cases (parse_written ht hu hp).symm.trans hparse
  · rename_i hparse
    refine iff_of_true (parse_ok_none hparse) (fun seconds hw => ?_)
    obtain ⟨number, c, unit, amount, ht, hu, hp, -⟩ := hw
    cases (parse_written ht hu hp).symm.trans hparse
  · rename_i seconds hparse
    obtain ⟨number, c, unit, amount, ht, hu, hp, rfl⟩ := parse_ok_some hparse
    have hw : WritesSeconds value (amount.toNat * unit) :=
      ⟨number, c, unit, amount, ht, hu, hp, rfl⟩
    rw [hfits hw, product_toNat hu]
    constructor
    · intro h
      rw [hw.unique h]
      exact Nat.mod_lt _ (by decide)
    · intro h
      rw [Nat.mod_eq_of_lt h]
      exact hw

theorem isWhitespace_of_isDigit {c : Char} (h : c.isDigit = true) : isWhitespace c = false := by
  have hpoints : ∀ n ∈ whitespacePoints, n < 48 ∨ 57 < n := by decide
  simp only [Char.isDigit, Bool.and_eq_true, decide_eq_true_eq, ge_iff_le,
    UInt32.le_iff_toNat_le] at h
  rw [isWhitespace, ← Bool.not_eq_true, List.contains_iff_mem]
  intro hm
  have hlow : 48 ≤ c.toNat := h.1
  have hhigh : c.toNat ≤ 57 := h.2
  have := hpoints _ hm
  omega

theorem parse_decimal (n : UInt64) {c : Char} {unit : Nat} (hu : unitSeconds c = some unit) :
    parseDurationSeconds (decimal n.toNat ++ [c]) = .ok (some (n * UInt64.ofNat unit)) := by
  refine parse_written (trim_eq_self_of_forall (fun d hd => ?_)) hu (parseU64_decimal n)
  rcases List.mem_append.mp hd with hd | hd
  · exact isWhitespace_of_isDigit (Nat.isDigit_of_mem_toDigits (by decide) (by decide) hd)
  · rw [List.mem_singleton.mp hd]
    exact (unitSeconds_cases hu).2.1

theorem parse_format (seconds : UInt64) :
    parseDurationSeconds (formatDurationSeconds seconds) = .ok (some seconds) := by
  have hwhole : ∀ (c : Char) (unit : Nat) (u : UInt64), unitSeconds c = some unit →
      u = UInt64.ofNat unit → seconds % u = 0 →
      parseDurationSeconds (decimal (seconds / u).toNat ++ [c]) = .ok (some seconds) := by
    rintro c unit u hu rfl hmod
    have hzero : seconds.toNat % (UInt64.ofNat unit).toNat = 0 := by
      rw [← UInt64.toNat_mod, hmod]
      rfl
    have hproduct : seconds / UInt64.ofNat unit * UInt64.ofNat unit = seconds := by
      apply UInt64.toNat_inj.mp
      rw [UInt64.toNat_mul, UInt64.toNat_div, Nat.div_mul_cancel (Nat.dvd_of_mod_eq_zero hzero),
        Nat.mod_eq_of_lt seconds.toNat_lt]
    rw [parse_decimal _ hu, hproduct]
  unfold formatDurationSeconds
  split_ifs with hd hh hm
  · exact hwhole 'd' 86400 DAY rfl rfl hd
  · exact hwhole 'h' 3600 HOUR rfl rfl hh
  · exact hwhole 'm' 60 MINUTE rfl rfl hm
  · have hs : unitSeconds 's' = some 1 := rfl
    simpa using parse_decimal seconds hs

def ttlText (value : Text) : Text := (splitn ':' 4 value).getD 2 []

def KeepsLength (value : Text) (rule : ProjectRetentionRuleInfo) : Prop :=
  (trim (ttlText value) = forever → rule.ttlSeconds = none) ∧
    ∀ seconds, WritesSeconds (ttlText value) seconds →
      ∃ s, rule.ttlSeconds = some s ∧ seconds ≤ s.toNat

theorem ttl_of_rule {value : Text} {rule : ProjectRetentionRuleInfo}
    (h : parseRetentionRule value = .ok rule) :
    parseDurationSeconds (ttlText value) = .ok rule.ttlSeconds := by
  unfold parseRetentionRule at h
  split at h
  · rename_i priority refPattern ttl keepBuilds hsplit
    have httl : ttlText value = ttl := by rw [ttlText, hsplit]; rfl
    rw [httl]
    split at h
    · cases h
    · split at h
      · cases h
      · split at h
        · cases h
        · cases hp : parseDurationSeconds ttl with
          | error x =>
            rw [hp] at h
            cases h
          | ok ttlSeconds =>
            rw [hp] at h
            cases hk : parseKeepBuilds keepBuilds with
            | error x =>
              rw [hk] at h
              cases h
            | ok keep =>
              rw [hk] at h
              cases h
              rfl
  · cases h

theorem keepsLength_iff {value : Text} {rule : ProjectRetentionRuleInfo}
    (h : parseRetentionRule value = .ok rule) : KeepsLength value rule ↔ Fits (ttlText value) := by
  have httl := ttl_of_rule h
  constructor
  · rintro ⟨-, hlong⟩ seconds hw
    obtain ⟨s, -, hs⟩ := hlong seconds hw
    exact Nat.lt_of_le_of_lt hs s.toNat_lt
  · intro hfits
    have hexact := (exact_iff_fits _).mpr hfits
    rw [Exact, httl] at hexact
    refine ⟨fun hforever => ?_, fun seconds hw => ?_⟩
    · have hnone : parseDurationSeconds (ttlText value) = .ok none := by
        simp [parseDurationSeconds, hforever]
      exact Except.ok.inj (httl.symm.trans hnone)
    · obtain ⟨number, c, unit, amount, ht, hu, hp, -⟩ := id hw
      have hsome := Except.ok.inj (httl.symm.trans (parse_written ht hu hp))
      rw [hsome] at hexact
      exact ⟨_, hsome, Nat.le_of_eq (hw.unique hexact)⟩

theorem durations_exact_iff (value : Text) (seconds : UInt64) :
    (Exact value ↔ Fits value) ∧
    (∀ rule, parseRetentionRule value = .ok rule →
      (KeepsLength value rule ↔ Fits (ttlText value))) ∧
    parseDurationSeconds (formatDurationSeconds seconds) = .ok (some seconds) :=
  ⟨exact_iff_fits value, fun _ => keepsLength_iff, parse_format seconds⟩

def longDuration : Text := "213503982334602d".toList

def longRule : Text := "1:main:213503982334602d:1".toList

theorem longDuration_shortened :
    parseDurationSeconds longDuration = .ok (some 61184) ∧ ¬ Exact longDuration ∧
    parseRetentionRule longRule = .ok ⟨1, "main".toList, some 61184, some 1⟩ ∧
    WritesSeconds (ttlText longRule) (213503982334602 * 86400) := by
  have hw : WritesSeconds longDuration (213503982334602 * 86400) :=
    ⟨"213503982334602".toList, 'd', 86400, 213503982334602, by decide +kernel, rfl,
      by decide +kernel, rfl⟩
  refine ⟨by decide +kernel, fun h => ?_, by decide +kernel, hw⟩
  have hfits := (exact_iff_fits _).mp h _ hw
  revert hfits
  decide

end Ctl
