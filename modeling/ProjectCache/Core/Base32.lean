import Mathlib.Data.List.GetD
import Mathlib.Data.Nat.Digits.Lemmas
import ProjectCache.Core.Nix

namespace NixBase32

open Textual Nix

def littleEndian (input : List UInt8) : Nat := Nat.ofDigits 256 (input.map UInt8.toNat)

def encodedLength (count : Nat) : Nat := (8 * count + 4) / 5

theorem ofDigits_range (b n count : Nat) :
    Nat.ofDigits b ((List.range count).map (fun k => n / b ^ k % b)) = n % b ^ count := by
  induction count with
  | zero => simp [Nat.mod_one]
  | succ count ih =>
    rw [List.range_succ, List.map_append, List.map_singleton, Nat.ofDigits_append,
      Nat.ofDigits_singleton, ih, List.length_map, List.length_range, Nat.mod_pow_succ]

theorem digits_lt (input : List UInt8) : ∀ d ∈ input.map UInt8.toNat, d < 256 := by
  intro d hd
  obtain ⟨c, -, rfl⟩ := List.mem_map.mp hd
  exact c.toNat_lt

theorem littleEndian_lt (input : List UInt8) : littleEndian input < 256 ^ input.length := by
  unfold littleEndian
  simpa using Nat.ofDigits_lt_base_pow_length (by decide : 1 < 256) (digits_lt input)

theorem littleEndian_injective {a b : List UInt8} (hl : a.length = b.length)
    (h : littleEndian a = littleEndian b) : a = b := by
  have hmap := Nat.ofDigits_inj_of_len_eq (by decide : 1 < 256) (by simpa using hl) (digits_lt a)
    (digits_lt b) h
  exact List.map_injective_iff.mpr (fun _ _ h => UInt8.toNat_inj.mp h) hmap

theorem exists_littleEndian {n count : Nat} (h : n < 256 ^ count) :
    ∃ input : List UInt8, input.length = count ∧ littleEndian input = n := by
  refine ⟨(Nat.digitsAppend 256 count n).map UInt8.ofNat, ?_, ?_⟩
  · rw [List.length_map, Nat.length_digitsAppend (by decide) count h]
  · have hdigits : ((Nat.digitsAppend 256 count n).map UInt8.ofNat).map UInt8.toNat =
        Nat.digitsAppend 256 count n := by
      rw [List.map_map]
      refine (List.map_congr_left (fun d hd => ?_)).trans (List.map_id _)
      have hlt := Nat.lt_of_mem_digitsAppend (by decide : 1 < 256) count d hd
      rw [Function.comp_apply, UInt8.toNat_ofNat', Nat.mod_eq_of_lt hlt, id]
    rw [littleEndian, hdigits]
    exact (Nat.setInvOn_digitsAppend_ofDigits (by decide) count).2 h

theorem window_bits {x : Nat} (hx : x < 256) (y rest : Nat) {j : Nat} (hj : j < 8)
    (hj0 : j ≠ 0) : ((x >>> j ||| y <<< (8 - j) % 256) &&& 31) =
      (x + 256 * (y + 256 * rest)) / 2 ^ j % 32 := by
  have hhigh : y <<< (8 - j) % 256 = 2 ^ (8 - j) * (y % 2 ^ j) := by
    rw [Nat.shiftLeft_eq]
    interval_cases j <;> omega
  have hlow : x >>> j < 2 ^ (8 - j) := by
    rw [Nat.shiftRight_eq_div_pow]
    interval_cases j <;> omega
  rw [hhigh, Nat.or_comm, ← Nat.two_pow_add_eq_or_of_lt hlow, Nat.and_two_pow_sub_one_eq_mod _ 5,
    Nat.shiftRight_eq_div_pow]
  interval_cases j <;> omega

def window (input : List UInt8) (i j : Nat) : UInt8 :=
  let low := if i < input.length then input.getD i 0 >>> UInt8.ofNat j else 0
  if i + 1 < input.length ∧ j ≠ 0 then low ||| input.getD (i + 1) 0 <<< UInt8.ofNat (8 - j)
  else low

theorem littleEndian_shift (input : List UInt8) (i : Nat) :
    littleEndian input / 256 ^ i = littleEndian (input.drop i) := by
  rw [littleEndian, Nat.ofDigits_div_pow_eq_ofDigits_drop i (by decide) _ (digits_lt input),
    littleEndian, List.map_drop]

theorem toNat_shiftRight (x : UInt8) {j : Nat} (hj : j < 8) :
    (x >>> UInt8.ofNat j).toNat = x.toNat >>> j := by
  rw [UInt8.toNat_shiftRight, UInt8.toNat_ofNat', Nat.mod_eq_of_lt (by omega : j < 2 ^ 8),
    Nat.mod_eq_of_lt hj]

theorem toNat_shiftLeft (x : UInt8) {j : Nat} (hj : j < 8) :
    (x <<< UInt8.ofNat j).toNat = x.toNat <<< j % 256 := by
  rw [UInt8.toNat_shiftLeft, UInt8.toNat_ofNat', Nat.mod_eq_of_lt (by omega : j < 2 ^ 8),
    Nat.mod_eq_of_lt hj]

theorem window_index (input : List UInt8) (n : Nat) :
    (window input (n * 5 / 8) (n * 5 % 8) &&& 0x1f).toNat =
      littleEndian input / 32 ^ n % 32 := by
  have hsplit : littleEndian input / 32 ^ n =
      littleEndian (input.drop (n * 5 / 8)) / 2 ^ (n * 5 % 8) := by
    rw [← littleEndian_shift, Nat.div_div_eq_div_mul,
      show (32 : Nat) = 2 ^ 5 from rfl, show (256 : Nat) = 2 ^ 8 from rfl, ← pow_mul, ← pow_mul,
      ← pow_add]
    congr 2
    omega
  rw [hsplit]
  have hj : n * 5 % 8 < 8 := Nat.mod_lt _ (by decide)
  generalize n * 5 / 8 = i, n * 5 % 8 = j at hj
  rw [UInt8.toNat_and]
  change (window input i j).toNat &&& 31 = _
  simp only [window]
  rcases Nat.lt_or_ge i input.length with hi | hi
  · rw [if_pos hi, List.drop_eq_getElem_cons hi, List.getD_eq_getElem _ _ hi]
    generalize input[i] = x
    have hx := x.toNat_lt
    rcases Nat.lt_or_ge (i + 1) input.length with hi' | hi'
    · rw [List.drop_eq_getElem_cons hi', List.getD_eq_getElem _ _ hi']
      generalize input[i + 1] = y
      simp only [littleEndian, List.map_cons, Nat.ofDigits_cons]
      by_cases hj0 : j = 0
      · subst hj0
        rw [if_neg (by simp), toNat_shiftRight _ (by decide), Nat.and_two_pow_sub_one_eq_mod _ 5]
        simp only [Nat.shiftRight_zero, pow_zero, Nat.div_one]
        omega
      · rw [if_pos ⟨hi', hj0⟩, UInt8.toNat_or, toNat_shiftRight _ hj,
          toNat_shiftLeft _ (by omega)]
        simpa using window_bits hx y.toNat _ hj hj0
    · rw [if_neg (by omega), List.drop_eq_nil_of_le hi', toNat_shiftRight _ hj,
        Nat.and_two_pow_sub_one_eq_mod _ 5, Nat.shiftRight_eq_div_pow]
      simp [littleEndian]
  · rw [if_neg (by omega), if_neg (by omega), List.drop_eq_nil_of_le hi]
    simp [littleEndian]

def symbol (d : Nat) : Char := nixBase32Alphabet.getD d '0'

theorem encodeNixBase32_eq (input : List UInt8) : encodeNixBase32 input =
    ((List.range (encodedLength input.length)).map
      (fun k => symbol (littleEndian input / 32 ^ k % 32))).reverse := by
  unfold encodeNixBase32
  split
  · rename_i h
    subst h
    rfl
  · rename_i h
    have hlength : (input.length * 8 - 1) / 5 + 1 = encodedLength input.length := by
      have := List.length_pos_of_ne_nil h
      unfold encodedLength
      omega
    rw [hlength, ← List.map_reverse]
    refine List.map_congr_left (fun k _ => ?_)
    rw [← window_index]
    rfl

theorem length_encodeNixBase32 (input : List UInt8) :
    (encodeNixBase32 input).length = encodedLength input.length := by
  simp [encodeNixBase32_eq]

theorem symbol_getElem? {d : Nat} (h : d < 32) : nixBase32Alphabet[d]? = some (symbol d) := by
  have hd : d < nixBase32Alphabet.length := h
  rw [symbol, List.getD_eq_getElem _ _ hd, List.getElem?_eq_getElem hd]

theorem symbol_injective {d e : Nat} (hd : d < 32) (he : e < 32) (h : symbol d = symbol e) :
    d = e := by
  have hnodup : nixBase32Alphabet.Nodup := by decide
  rw [symbol, symbol, List.getD_eq_getElem _ _ (show d < nixBase32Alphabet.length from hd),
    List.getD_eq_getElem _ _ (show e < nixBase32Alphabet.length from he)] at h
  exact (hnodup.getElem_inj_iff).mp h

theorem littleEndian_lt_encoded (input : List UInt8) :
    littleEndian input < 32 ^ encodedLength input.length := by
  refine Nat.lt_of_lt_of_le (littleEndian_lt input) ?_
  rw [show (256 : Nat) = 2 ^ 8 from rfl, show (32 : Nat) = 2 ^ 5 from rfl, ← pow_mul, ← pow_mul]
  refine Nat.pow_le_pow_right (by decide) ?_
  unfold encodedLength
  omega

theorem encodeNixBase32_injective {a b : List UInt8} (hl : a.length = b.length)
    (h : encodeNixBase32 a = encodeNixBase32 b) : a = b := by
  refine littleEndian_injective hl ?_
  rw [encodeNixBase32_eq, encodeNixBase32_eq, hl, List.reverse_inj, List.map_inj_left] at h
  have hdigits : (List.range (encodedLength b.length)).map (fun k => littleEndian a / 32 ^ k % 32) =
      (List.range (encodedLength b.length)).map (fun k => littleEndian b / 32 ^ k % 32) :=
    List.map_congr_left (fun k hk => symbol_injective (Nat.mod_lt _ (by decide))
      (Nat.mod_lt _ (by decide)) (h k hk))
  have hvalue := congrArg (Nat.ofDigits 32) hdigits
  have ha := littleEndian_lt_encoded a
  rw [hl] at ha
  rwa [ofDigits_range, ofDigits_range, Nat.mod_eq_of_lt ha,
    Nat.mod_eq_of_lt (littleEndian_lt_encoded b)] at hvalue

def shiftRightChecked (x : UInt8) (j : Nat) : Option UInt8 :=
  if j < 8 then some (x >>> UInt8.ofNat j) else none

def shiftLeftChecked (x : UInt8) (j : Nat) : Option UInt8 :=
  if j < 8 then some (x <<< UInt8.ofNat j) else none

def windowChecked (input : List UInt8) (i j : Nat) : Option UInt8 := do
  let low ← if i < input.length then do shiftRightChecked (← input[i]?) j else some 0
  if i + 1 < input.length ∧ j ≠ 0 then do
    let high ← shiftLeftChecked (← input[i + 1]?) (8 - j)
    return low ||| high
  else return low

def encodeNixBase32Checked (input : List UInt8) : Option Text :=
  if input = [] then some []
  else
    let length := (input.length * 8 - 1) / 5 + 1
    (List.range length).reverse.mapM (fun n => do
      let bitOffset := n * 5
      let c ← windowChecked input (bitOffset / 8) (bitOffset % 8)
      nixBase32Alphabet[(c &&& 0x1f).toNat]?)

theorem windowChecked_eq (input : List UInt8) (i : Nat) {j : Nat} (hj : j < 8) :
    windowChecked input i j = some (window input i j) := by
  simp only [windowChecked, window, shiftRightChecked, shiftLeftChecked]
  by_cases hi : i < input.length
  · rw [if_pos hi, if_pos hi, List.getElem?_eq_getElem hi, List.getD_eq_getElem _ _ hi]
    by_cases hi' : i + 1 < input.length ∧ j ≠ 0
    · have hj' : 8 - j < 8 := by omega
      simp only [if_pos hi', if_pos hj, if_pos hj', List.getElem?_eq_getElem hi'.1,
        List.getD_eq_getElem _ _ hi'.1, Option.bind_eq_bind, Option.bind_some]
      rfl
    · simp only [if_neg hi', if_pos hj, Option.bind_eq_bind, Option.bind_some]
      rfl
  · have hi' : ¬ (i + 1 < input.length ∧ j ≠ 0) := by omega
    simp only [if_neg hi, if_neg hi', Option.bind_eq_bind, Option.bind_some]
    rfl

theorem mapM_some {A B : Type} {f : A → Option B} {g : A → B} {as : List A}
    (h : ∀ a ∈ as, f a = some (g a)) : as.mapM f = some (as.map g) := by
  induction as with
  | nil => rfl
  | cons a rest ih =>
    rw [List.mapM_cons, h a List.mem_cons_self, ih (fun b hb => h b (List.mem_cons_of_mem a hb))]
    rfl

theorem encodeNixBase32Checked_eq (input : List UInt8) :
    encodeNixBase32Checked input = some (encodeNixBase32 input) := by
  unfold encodeNixBase32Checked encodeNixBase32
  split
  · rfl
  · refine mapM_some (fun n _ => ?_)
    change (windowChecked input (n * 5 / 8) (n * 5 % 8)).bind
      (fun c => nixBase32Alphabet[(c &&& 0x1f).toNat]?) =
        some (nixBase32Symbol (window input (n * 5 / 8) (n * 5 % 8)))
    rw [windowChecked_eq _ _ (Nat.mod_lt _ (by decide)), Option.bind_some, window_index,
      symbol_getElem? (Nat.mod_lt _ (by decide)), ← window_index]
    rfl

theorem length_of_alphabet {digest : Text} (h : ∀ c ∈ digest, c ∈ nixBase32Alphabet)
    (hl : utf8Len digest = 52) : digest.length = 52 := by
  have ha : ∀ c ∈ digest, c.utf8Size = 1 := by
    have hb : nixBase32Alphabet.all (fun c => c.utf8Size = 1) = true := by decide
    simpa using fun c hc => List.all_eq_true.mp hb c (h c hc)
  rw [utf8Len, List.map_congr_left ha] at hl
  simpa using hl

section

variable [Base64]

theorem parseText_hyphen {digest : Text} (h : ':' ∉ digest) :
    NormalizedNarHash.parseText ("sha256-".toList ++ digest) =
      NormalizedNarHash.fromBase64Digest .sha256 digest := by
  have hno : ':' ∉ "sha256-".toList ++ digest := by
    rw [List.mem_append, not_or]
    exact ⟨by decide, h⟩
  have hsplit : splitOnce '-' ("sha256-".toList ++ digest) = some ("sha256".toList, digest) :=
    splitOnce_append (a := "sha256".toList) (by decide) _
  have hparse : parseHashText ("sha256-".toList ++ digest) = some (.sha256, .sri, digest) := by
    rw [parseHashText, splitOnce_eq_none.mpr hno, hsplit]
    rfl
  rw [NormalizedNarHash.parseText, hparse]

theorem parseText_sri (hp : Base64.Printable)
    (hd : ∀ bytes, Base64.decode (Base64.encode bytes) = .ok bytes) (input : List UInt8) :
    ∃ h, NormalizedNarHash.parseText ("sha256-".toList ++ Base64.encode input) = .ok h ∧
      h.digest = encodeNixBase32 input := by
  have hcolon : ':' ∉ Base64.encode input := by
    intro hc
    have he := hp input _ hc
    revert he
    decide
  rw [parseText_hyphen hcolon]
  simp only [NormalizedNarHash.fromBase64Digest, HashAlgorithm.supportsNixBase32Conversion,
    dif_pos, hd]
  exact ⟨_, rfl, rfl⟩

theorem encodeNixBase32_exact (hp : Base64.Printable)
    (hd : ∀ bytes, Base64.decode (Base64.encode bytes) = .ok bytes) :
    (∀ input, encodeNixBase32Checked input = some (encodeNixBase32 input) ∧
      (encodeNixBase32 input).length = (8 * input.length + 4) / 5 ∧
      ∀ k < (encodeNixBase32 input).length, (encodeNixBase32 input).reverse[k]? =
        nixBase32Alphabet[littleEndian input / 2 ^ (5 * k) % 32]?) ∧
    (∀ a b : List UInt8, a.length = b.length → encodeNixBase32 a = encodeNixBase32 b → a = b) ∧
    ∀ input : List UInt8, input.length = 32 → ∃ h,
      NormalizedNarHash.parseText ("sha256-".toList ++ Base64.encode input) = .ok h ∧
        NormalizedNarHash.parseText ("sha256:".toList ++ encodeNixBase32 input) = .ok h := by
  refine ⟨fun input => ⟨encodeNixBase32Checked_eq input, length_encodeNixBase32 input,
    fun k hk => ?_⟩, fun a b hl h => encodeNixBase32_injective hl h, fun input hl => ?_⟩
  · rw [length_encodeNixBase32] at hk
    have hpow : (2 : Nat) ^ (5 * k) = 32 ^ k := by
      rw [show (32 : Nat) = 2 ^ 5 from rfl, ← pow_mul]
    rw [hpow, symbol_getElem? (Nat.mod_lt _ (by decide)), encodeNixBase32_eq, List.reverse_reverse]
    simp [hk]
  · obtain ⟨h, hsri, hdigest⟩ := parseText_sri hp hd input
    refine ⟨h, hsri, ?_⟩
    rw [← hdigest, ← h.display_eq]
    refine NormalizedNarHash.parseText_display ?_
    rw [hdigest, length_encodeNixBase32, hl]
    rfl

def StartsLow (digest : Text) : Prop := digest.head? = some '0' ∨ digest.head? = some '1'

omit [Base64] in
theorem symbol_lt_two {d : Nat} (hd : d < 32) : symbol d = '0' ∨ symbol d = '1' ↔ d < 2 := by
  have hall : ∀ d < 32, symbol d = '0' ∨ symbol d = '1' ↔ d < 2 := by decide
  exact hall d hd

omit [Base64] in
theorem startsLow_encode {input : List UInt8} (hl : input.length = 32) :
    StartsLow (encodeNixBase32 input) := by
  have hlt : littleEndian input < 2 ^ 256 := by simpa [hl] using littleEndian_lt input
  have htop : littleEndian input / 32 ^ 51 < 2 := by omega
  have hhead :
      (encodeNixBase32 input).head? = some (symbol (littleEndian input / 32 ^ 51 % 32)) := by
    rw [encodeNixBase32_eq, hl, List.head?_reverse]
    rfl
  rw [StartsLow, hhead, Option.some.injEq, Option.some.injEq,
    symbol_lt_two (Nat.mod_lt _ (by decide))]
  omega

omit [Base64] in
theorem exists_digits {digest : Text} (h : ∀ c ∈ digest, c ∈ nixBase32Alphabet) :
    ∃ ds : List Nat, (∀ d ∈ ds, d < 32) ∧ digest = (ds.map symbol).reverse := by
  induction digest with
  | nil => exact ⟨[], by simp, rfl⟩
  | cons c rest ih =>
    obtain ⟨ds, hds, hrest⟩ := ih (fun d hd => h d (List.mem_cons_of_mem c hd))
    obtain ⟨n, hn, hc⟩ := List.getElem_of_mem (h c List.mem_cons_self)
    refine ⟨ds ++ [n], fun d hd => ?_, ?_⟩
    · rcases List.mem_append.mp hd with hd | hd
      · exact hds d hd
      · rw [List.mem_singleton.mp hd]
        exact hn
    · have hsymbol : symbol n = c := by
        rw [symbol, List.getD_eq_getElem _ _ hn, hc]
      simp [hsymbol, hrest]

omit [Base64] in
theorem exists_encode {digest : Text} (hl : digest.length = 52)
    (h : ∀ c ∈ digest, c ∈ nixBase32Alphabet) (hs : StartsLow digest) :
    ∃ input : List UInt8, input.length = 32 ∧ digest = encodeNixBase32 input := by
  obtain ⟨ds, hds, rfl⟩ := exists_digits h
  simp only [List.length_reverse, List.length_map] at hl
  obtain ⟨low, top, rfl⟩ : ∃ low top, ds = low ++ [top] :=
    ⟨_, _, (List.dropLast_append_getLast (List.ne_nil_of_length_eq_add_one hl)).symm⟩
  have htop : top < 2 := by
    have ht := hds top (by simp)
    rw [← symbol_lt_two ht]
    simpa [StartsLow] using hs
  have hlow : low.length = 51 := by simpa using hl
  have hvalue : Nat.ofDigits 32 (low ++ [top]) < 256 ^ 32 := by
    have hlt := Nat.ofDigits_lt_base_pow_length (b := 32) (by decide)
      (fun d hd => hds d (List.mem_append_left _ hd) : ∀ d ∈ low, d < 32)
    rw [hlow] at hlt
    rw [Nat.ofDigits_append, Nat.ofDigits_singleton, hlow]
    omega
  obtain ⟨input, hil, hin⟩ := exists_littleEndian hvalue
  refine ⟨input, hil, ?_⟩
  rw [encodeNixBase32_eq, hil, hin, List.reverse_inj]
  have hdigits : low ++ [top] = (List.range (encodedLength 32)).map
      (fun k => Nat.ofDigits 32 (low ++ [top]) / 32 ^ k % 32) := by
    refine Nat.ofDigits_inj_of_len_eq (by decide : 1 < 32) (by simpa [encodedLength] using hl) hds
      (fun d hd => ?_) ?_
    · obtain ⟨k, -, rfl⟩ := List.mem_map.mp hd
      exact Nat.mod_lt _ (by decide)
    · have hlt := Nat.ofDigits_lt_base_pow_length (by decide : 1 < 32) hds
      rw [hl] at hlt
      rw [ofDigits_range, Nat.mod_eq_of_lt (by simpa [encodedLength] using hlt)]
  conv_lhs => rw [hdigits]
  rw [List.map_map]
  rfl

def Decodes32 (digest : Text) : Prop :=
  ∃ bytes, Base64.decode digest = .ok bytes ∧ bytes.length = 32

def FitsSha256 : NixHash → Prop
  | .raw text =>
    match parseHashText text with
    | some (_, .sri, digest) => Decodes32 digest
    | some (_, .colonSeparated, digest) => StartsLow digest
    | none => False
  | .structured _ (some .nixBase32) digest => StartsLow digest
  | .structured _ _ digest => Decodes32 digest

def IsSha256 (h : NormalizedNarHash) : Prop :=
  h.algorithm = .sha256 ∧
    (∃ input : List UInt8, input.length = 32 ∧ h.digest = encodeNixBase32 input) ∧
      NormalizedNarHash.parseText h.display = .ok h

theorem isSha256_of_encode {h : NormalizedNarHash} {input : List UInt8} (hl : input.length = 32)
    (hd : h.digest = encodeNixBase32 input) : IsSha256 h := by
  refine ⟨HashAlgorithm.eq_sha256_of_supports h.supported, ⟨input, hl, hd⟩,
    NormalizedNarHash.parseText_display ?_⟩
  rw [hd, length_encodeNixBase32, hl]
  rfl

theorem isSha256_iff_of_base64 {algorithm : HashAlgorithm} {digest : Text} {h : NormalizedNarHash}
    (hn : NormalizedNarHash.fromBase64Digest algorithm digest = .ok h) :
    IsSha256 h ↔ Decodes32 digest := by
  unfold NormalizedNarHash.fromBase64Digest at hn
  split at hn
  · split at hn
    · cases hn
    · rename_i bytes hbytes
      cases hn
      constructor
      · rintro ⟨-, ⟨input, hl, hd⟩, -⟩
        refine ⟨bytes, hbytes, ?_⟩
        have hlength := congrArg List.length hd
        simp only [length_encodeNixBase32, hl, encodedLength] at hlength
        omega
      · rintro ⟨bytes', hbytes', hl⟩
        rw [hbytes, Except.ok.injEq] at hbytes'
        subst hbytes'
        exact isSha256_of_encode hl rfl
  · cases hn

theorem isSha256_iff_of_new {algorithm : HashAlgorithm} {digest : Text} {h : NormalizedNarHash}
    (hn : NormalizedNarHash.new algorithm digest = .ok h) : IsSha256 h ↔ StartsLow digest := by
  unfold NormalizedNarHash.new at hn
  split at hn
  · cases hn
  · rename_i hv
    cases hn
    obtain ⟨-, hvalid, hlen⟩ := validateNix32TextDigest_eq_ok.mp hv
    have halphabet := (isValidNixBase32Alphabet_iff.mp hvalid).2
    constructor
    · rintro ⟨-, ⟨input, hl, hd⟩, -⟩
      have hlow := startsLow_encode hl
      rwa [← hd] at hlow
    · intro hlow
      obtain ⟨input, hl, hd⟩ := exists_encode (length_of_alphabet halphabet hlen) halphabet hlow
      exact isSha256_of_encode hl hd

theorem normalized_isSha256_iff {x : NixHash} {h : NormalizedNarHash} (hx : x.normalize = .ok h) :
    IsSha256 h ↔ FitsSha256 x := by
  cases x with
  | raw text =>
    change NormalizedNarHash.parseText text = .ok h at hx
    unfold NormalizedNarHash.parseText at hx
    unfold FitsSha256
    split at hx
    · cases hx
    · rename_i hp
      simp only [hp]
      exact isSha256_iff_of_base64 hx
    · rename_i hp
      simp only [hp]
      exact isSha256_iff_of_new hx
  | structured algorithm encoding digest =>
    cases encoding with
    | none => exact isSha256_iff_of_base64 hx
    | some encoding =>
      cases encoding with
      | base64 => exact isSha256_iff_of_base64 hx
      | nixBase32 => exact isSha256_iff_of_new hx
      | other name => cases hx

end

section Examples

attribute [local instance] standardBase64

def testDigest : List UInt8 :=
  [0x9f, 0x86, 0xd0, 0x81, 0x88, 0x4c, 0x7d, 0x65, 0x9a, 0x2f, 0xea, 0xa0, 0xc5, 0x5a, 0xd0, 0x15,
    0xa3, 0xbf, 0x4f, 0x1b, 0x2b, 0x0b, 0x82, 0x2c, 0xd1, 0x5d, 0x6c, 0x15, 0xb0, 0xf0, 0x0a, 0x08]

example : encodeNixBase32 testDigest =
    "020ay2q1av2xs4n842rb3d7vz8qms1dcb87a5yd6azaci20x11lz".toList := by decide +kernel

theorem standardBase64_inverts (bytes : List UInt8) :
    Base64.decode (Base64.encode bytes) = .ok bytes := by
  simp [Base64.decode, Base64.encode, Rfc4648.decode_encode]

theorem testDigest_exact : testDigest.length = 32 ∧ ∃ h,
    NormalizedNarHash.parseText ("sha256-".toList ++ Base64.encode testDigest) = .ok h ∧
      NormalizedNarHash.parseText ("sha256:".toList ++ encodeNixBase32 testDigest) = .ok h :=
  ⟨rfl, (encodeNixBase32_exact standardBase64_printable standardBase64_inverts).2.2 testDigest rfl⟩

theorem testDigest_isSha256 : ∃ h,
    (NixHash.raw "sha256-n4bQgYhMfWWaL+qgxVrQFaO/TxsrC4Is0V1sFbDwCgg=".toList).normalize = .ok h ∧
      IsSha256 h := by
  obtain ⟨h, hh⟩ : ∃ h, (NixHash.raw
      "sha256-n4bQgYhMfWWaL+qgxVrQFaO/TxsrC4Is0V1sFbDwCgg=".toList).normalize = .ok h :=
    ⟨_, rfl⟩
  refine ⟨h, hh, (normalized_isSha256_iff hh).mpr ⟨testDigest, ?_, rfl⟩⟩
  decide +kernel

theorem short_digest_normalized : ∃ h,
    (NixHash.raw "sha256-AAAA".toList).normalize = .ok h ∧ ¬ IsSha256 h := by
  obtain ⟨h, hh, hd⟩ : ∃ h, (NixHash.raw "sha256-AAAA".toList).normalize = .ok h ∧
      h.digest = "00000".toList := ⟨_, rfl, by decide +kernel⟩
  refine ⟨h, hh, ?_⟩
  rintro ⟨-, ⟨input, hl, hencode⟩, -⟩
  have hlength := congrArg List.length hencode
  rw [hd, length_encodeNixBase32, hl] at hlength
  cases hlength

end Examples

end NixBase32
