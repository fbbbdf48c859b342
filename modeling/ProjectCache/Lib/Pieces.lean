import Mathlib.Data.List.Basic
import Mathlib.Tactic.Common
import Mathlib.Tactic.Ring

namespace Pieces

variable {A : Type}

def pieces (p : Nat) (xs : List A) : List (List A) :=
  if _h : 0 < p ∧ 0 < xs.length then xs.take p :: pieces p (xs.drop p) else []
termination_by xs.length
decreasing_by
  rw [List.length_drop]
  omega

structure Splits (p : Nat) (xs : List A) (parts : List (List A)) : Prop where
  flatten : parts.flatten = xs
  full : ∀ part ∈ parts.dropLast, part.length = p
  last : ∀ part ∈ parts.getLast?, 1 ≤ part.length ∧ part.length ≤ p

variable {p : Nat} {xs : List A}

@[simp] theorem pieces_nil : pieces p ([] : List A) = [] := by
  rw [pieces, dif_neg (by simp)]

theorem pieces_of_pos (hp : 0 < p) (hx : xs ≠ []) :
    pieces p xs = xs.take p :: pieces p (xs.drop p) := by
  rw [pieces, dif_pos ⟨hp, List.length_pos_iff.mpr hx⟩]

theorem pieces_eq_nil_iff (hp : 0 < p) : pieces p xs = [] ↔ xs = [] := by
  constructor
  · intro h
    by_contra hx
    rw [pieces_of_pos hp hx] at h
    cases h
  · rintro rfl
    exact pieces_nil

theorem pieces_induction {motive : List A → Prop} (hp : 0 < p) (nil : motive [])
    (step : ∀ xs, xs ≠ [] → motive (xs.drop p) → motive xs) (xs : List A) : motive xs := by
  induction h : xs.length using Nat.strong_induction_on generalizing xs with
  | _ n ih =>
    by_cases hx : xs = []
    · exact hx ▸ nil
    · refine step xs hx (ih _ ?_ _ rfl)
      have := List.length_pos_iff.mpr hx
      rw [List.length_drop]
      omega

theorem flatten_pieces (hp : 0 < p) (xs : List A) : (pieces p xs).flatten = xs := by
  induction xs using pieces_induction hp with
  | nil => simp
  | step xs hx ih => rw [pieces_of_pos hp hx, List.flatten_cons, ih, List.take_append_drop]

theorem length_pieces (hp : 0 < p) (xs : List A) :
    (pieces p xs).length = (xs.length + p - 1) / p := by
  induction xs using pieces_induction hp with
  | nil =>
    rw [pieces_nil, List.length_nil, List.length_nil, Nat.zero_add, Nat.div_eq_of_lt (by omega)]
  | step xs hx ih =>
    have hpos := List.length_pos_iff.mpr hx
    rw [pieces_of_pos hp hx, List.length_cons, ih, List.length_drop]
    by_cases hle : p ≤ xs.length
    · rw [show xs.length + p - 1 = xs.length - p + p - 1 + p by omega, Nat.add_div_right _ hp]
    · rw [show xs.length - p + p - 1 = p - 1 by omega, Nat.div_eq_of_lt (by omega),
        show xs.length + p - 1 = xs.length - 1 + p by omega, Nat.add_div_right _ hp,
        Nat.div_eq_of_lt (by omega)]

theorem length_pieces_le_iff (hp : 0 < p) {count : Nat} :
    (pieces p xs).length ≤ count ↔ xs.length ≤ count * p := by
  rw [length_pieces hp, ← Nat.lt_succ_iff, Nat.div_lt_iff_lt_mul hp, Nat.succ_mul]
  omega

theorem getElem?_pieces (hp : 0 < p) (i : Nat) (xs : List A) : (pieces p xs)[i]? =
    if i * p < xs.length then some ((xs.drop (i * p)).take p) else none := by
  induction i generalizing xs with
  | zero =>
    by_cases hx : xs = []
    · simp [hx]
    · rw [pieces_of_pos hp hx, if_pos (by simpa using List.length_pos_iff.mpr hx)]
      simp
  | succ i ih =>
    by_cases hx : xs = []
    · simp [hx]
    · rw [pieces_of_pos hp hx, List.getElem?_cons_succ, ih, List.length_drop, List.drop_drop,
        Nat.succ_mul, Nat.add_comm p]
      refine if_congr ?_ rfl rfl
      omega

theorem pieces_splits (hp : 0 < p) (xs : List A) : Splits p xs (pieces p xs) := by
  refine ⟨flatten_pieces hp xs, ?_, ?_⟩
  · induction xs using pieces_induction hp with
    | nil => simp
    | step xs hx ih =>
      rw [pieces_of_pos hp hx]
      by_cases hd : xs.drop p = []
      · simp [hd]
      · have hne : pieces p (xs.drop p) ≠ [] := fun h => hd ((pieces_eq_nil_iff hp).mp h)
        rw [List.dropLast_cons_of_ne_nil hne]
        intro part hm
        rcases List.mem_cons.mp hm with rfl | hm
        · rw [List.length_take]
          have := List.length_pos_iff.mpr hd
          rw [List.length_drop] at this
          omega
        · exact ih part hm
  · induction xs using pieces_induction hp with
    | nil => simp
    | step xs hx ih =>
      rw [pieces_of_pos hp hx]
      by_cases hd : pieces p (xs.drop p) = []
      · have := List.length_pos_iff.mpr hx
        simp only [hd, List.getLast?_singleton, Option.mem_some_iff, forall_eq', List.length_take]
        omega
      · rwa [List.getLast?_cons_of_ne_nil hd]

end Pieces
