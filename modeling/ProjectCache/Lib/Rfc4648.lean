import Mathlib.Data.UInt
import ProjectCache.Lib.Text

namespace Rfc4648

open Textual

def alphabet : Text :=
  "ABCDEFGHIJKLMNOPQRSTUVWXYZabcdefghijklmnopqrstuvwxyz0123456789+/".toList

def isEncodedCharacter (c : Char) : Bool := alphabet.contains c || c = '='

def symbol (n : Nat) : Char := alphabet.getD (n % 64) 'A'

def encode : List UInt8 → Text
  | a :: b :: c :: rest =>
    let n := (a.toNat * 256 + b.toNat) * 256 + c.toNat
    symbol (n / 262144) :: symbol (n / 4096) :: symbol (n / 64) :: symbol n :: encode rest
  | [a, b] =>
    let n := (a.toNat * 256 + b.toNat) * 4
    [symbol (n / 4096), symbol (n / 64), symbol n, '=']
  | [a] =>
    let n := a.toNat * 16
    [symbol (n / 64), symbol n, '=', '=']
  | [] => []

def value (c : Char) : Option Nat := alphabet.idxOf? c

-- Padding is required and the unused bits of a last group are zero.
def decode : Text → Option (List UInt8)
  | [] => some []
  | [a, b, '=', '='] => do
    let n := (← value a) * 64 + (← value b)
    if n % 16 = 0 then some [UInt8.ofNat (n / 16)] else none
  | [a, b, c, '='] => do
    let n := ((← value a) * 64 + (← value b)) * 64 + (← value c)
    if n % 4 = 0 then some [UInt8.ofNat (n / 1024), UInt8.ofNat (n / 4)] else none
  | a :: b :: c :: d :: rest => do
    let n := (((← value a) * 64 + (← value b)) * 64 + (← value c)) * 64 + (← value d)
    let bytes ← decode rest
    some (UInt8.ofNat (n / 65536) :: UInt8.ofNat (n / 256) :: UInt8.ofNat n :: bytes)
  | _ => none

example : encode [0x66, 0x6f, 0x6f, 0x62] = "Zm9vYg==".toList := by decide

example : decode "Zm9vYg==".toList = some [0x66, 0x6f, 0x6f, 0x62] := by decide

theorem isEncodedCharacter_symbol (n : Nat) : isEncodedCharacter (symbol n) = true := by
  have hn : n % 64 < alphabet.length := Nat.mod_lt n (by decide)
  have hm : symbol n ∈ alphabet := by
    rw [symbol, List.getD_eq_getElem?_getD, List.getElem?_eq_getElem hn]
    exact List.getElem_mem hn
  simp [isEncodedCharacter, hm]

theorem isEncodedCharacter_of_mem_encode {bytes : List UInt8} :
    ∀ c ∈ encode bytes, isEncodedCharacter c = true := by
  have he : isEncodedCharacter '=' = true := by decide
  induction bytes using encode.induct <;>
    simp_all [encode, isEncodedCharacter_symbol]

theorem not_whitespace {c : Char} (h : isEncodedCharacter c = true) : isWhitespace c = false := by
  have hall : ('=' :: alphabet).all (fun c => !isWhitespace c) = true := by decide +kernel
  have hc : c ∈ '=' :: alphabet := by simpa [isEncodedCharacter, or_comm] using h
  simpa using List.all_eq_true.mp hall c hc

theorem symbol_ne_pad (n : Nat) : symbol n ≠ '=' := by
  have hall : ∀ i < 64, alphabet.getD i 'A' ≠ '=' := by decide +kernel
  exact hall _ (Nat.mod_lt n (by decide))

theorem value_symbol (n : Nat) : value (symbol n) = some (n % 64) := by
  have hall : ∀ i < 64, value (alphabet.getD i 'A') = some i := by decide +kernel
  exact hall _ (Nat.mod_lt n (by decide))

theorem decode_encode (bytes : List UInt8) : decode (encode bytes) = some bytes := by
  induction bytes using encode.induct with
  | case1 a b c rest ih =>
    have ha := a.toNat_lt
    have hb := b.toNat_lt
    have hc := c.toNat_lt
    rw [encode, decode]
    · simp only [value_symbol, ih, Option.bind_eq_bind, Option.bind_some]
      generalize hm : (a.toNat * 256 + b.toNat) * 256 + c.toNat = m
      have hn :
          (((m / 262144 % 64) * 64 + m / 4096 % 64) * 64 + m / 64 % 64) * 64 + m % 64 = m := by
        omega
      have h1 : m / 65536 = a.toNat := by omega
      have h2 : UInt8.ofNat (m / 256) = b := by
        rw [← UInt8.toNat_inj, UInt8.toNat_ofNat']
        omega
      have h3 : UInt8.ofNat m = c := by
        rw [← UInt8.toNat_inj, UInt8.toNat_ofNat']
        omega
      rw [hn, h1, h2, h3, UInt8.ofNat_toNat]
    · exact fun _ hp => absurd hp (symbol_ne_pad _)
    · exact fun hp => absurd hp (symbol_ne_pad _)
  | case2 a b =>
    have ha := a.toNat_lt
    have hb := b.toNat_lt
    rw [encode, decode]
    · simp only [value_symbol, Option.bind_eq_bind, Option.bind_some]
      generalize hm : (a.toNat * 256 + b.toNat) * 4 = m
      have hn : ((m / 4096 % 64) * 64 + m / 64 % 64) * 64 + m % 64 = m := by omega
      have h1 : m / 1024 = a.toNat := by omega
      have h2 : UInt8.ofNat (m / 4) = b := by
        rw [← UInt8.toNat_inj, UInt8.toNat_ofNat']
        omega
      have h3 : m % 4 = 0 := by omega
      rw [hn, h1, h2, if_pos h3, UInt8.ofNat_toNat]
    · exact fun hp => absurd hp (symbol_ne_pad _)
  | case3 a =>
    have ha := a.toNat_lt
    simp only [encode, decode, value_symbol, Option.bind_eq_bind, Option.bind_some]
    generalize hm : a.toNat * 16 = m
    have hn : (m / 64 % 64) * 64 + m % 64 = m := by omega
    have h1 : m / 16 = a.toNat := by omega
    have h2 : m % 16 = 0 := by omega
    rw [hn, h1, if_pos h2, UInt8.ofNat_toNat]
  | case4 => rfl

theorem isEncodedCharacter_of_value {c : Char} {n : Nat} (h : value c = some n) :
    isEncodedCharacter c = true := by
  have hm : c ∈ alphabet := by
    by_contra hm
    rw [value, List.idxOf?_eq_none_iff.mpr hm] at h
    cases h
  simp [isEncodedCharacter, hm]

theorem isEncodedCharacter_of_decode {text : Text} {bytes : List UInt8}
    (h : decode text = some bytes) : ∀ c ∈ text, isEncodedCharacter c = true := by
  have hpad : isEncodedCharacter '=' = true := by decide
  induction text using decode.induct generalizing bytes with
  | case1 => simp
  | case2 a b =>
    simp only [decode, Option.bind_eq_bind, Option.bind_eq_some_iff] at h
    obtain ⟨i, hi, j, hj, -⟩ := h
    simp [isEncodedCharacter_of_value hi, isEncodedCharacter_of_value hj, hpad]
  | case3 a b c hc =>
    rw [decode.eq_3 _ _ _ hc] at h
    simp only [Option.bind_eq_bind, Option.bind_eq_some_iff] at h
    obtain ⟨i, hi, j, hj, k, hk, -⟩ := h
    simp [isEncodedCharacter_of_value hi, isEncodedCharacter_of_value hj,
      isEncodedCharacter_of_value hk, hpad]
  | case4 a b c d rest h1 h2 ih =>
    rw [decode.eq_4 _ _ _ _ _ h1 h2] at h
    simp only [Option.bind_eq_bind, Option.bind_eq_some_iff] at h
    obtain ⟨i, hi, j, hj, k, hk, l, hl, later, hlater, -⟩ := h
    simp only [List.mem_cons, forall_eq_or_imp, isEncodedCharacter_of_value hi,
      isEncodedCharacter_of_value hj, isEncodedCharacter_of_value hk,
      isEncodedCharacter_of_value hl, true_and]
    exact ih hlater
  | case5 => simp_all [decode]

end Rfc4648
