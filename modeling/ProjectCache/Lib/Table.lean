import Mathlib.Data.List.Nodup
import Mathlib.Data.List.Pairwise
import Mathlib.Tactic.Common

namespace Tables

class Keyed (R : Type) where
  clash : R → R → Bool
  clash_comm : ∀ a b, clash a b = clash b a
  clash_self : ∀ a, clash a a = true

structure Table (R : Type) [Keyed R] where
  rows : List R
  distinct : rows.Pairwise (fun a b => Keyed.clash a b = false)

namespace Table

open Keyed

variable {R : Type} [Keyed R]

def empty : Table R := ⟨[], List.Pairwise.nil⟩

instance : Inhabited (Table R) := ⟨empty⟩

@[ext] theorem ext {t u : Table R} (h : t.rows = u.rows) : t = u := by
  cases t
  cases u
  simpa using h

instance [DecidableEq R] : DecidableEq (Table R) := fun t u =>
  decidable_of_iff (t.rows = u.rows) ⟨ext, fun h => h ▸ rfl⟩

@[simp] theorem empty_rows : (empty : Table R).rows = [] := rfl

def single (r : R) : Table R := ⟨[r], List.pairwise_singleton _ r⟩

@[simp] theorem single_rows (r : R) : (single r).rows = [r] := rfl

def Free (t : Table R) (r : R) : Prop := ∀ x ∈ t.rows, clash x r = false

instance (t : Table R) (r : R) : Decidable (t.Free r) := by
  unfold Free
  infer_instance

def add (t : Table R) (r : R) (h : t.Free r) : Table R where
  rows := t.rows ++ [r]
  distinct := List.pairwise_append.mpr ⟨t.distinct, List.pairwise_singleton _ _,
    fun x hx y hy => by rw [List.mem_singleton.mp hy]; exact h x hx⟩

def insert (t : Table R) (r : R) : Option (Table R) :=
  if h : t.Free r then some (t.add r h) else none

def insertOrIgnore (t : Table R) (r : R) : Table R := (t.insert r).getD t

structure KeepsKey (f : R → R) : Prop where
  clash_left : ∀ a b, clash (f a) b = clash a b

theorem KeepsKey.clash_both {f : R → R} (hf : KeepsKey f) (a b : R) :
    clash (f a) (f b) = clash a b := by
  rw [hf.clash_left, clash_comm, hf.clash_left, clash_comm]

theorem KeepsKey.onlyIf {f : R → R} (hf : KeepsKey f) (p : R → Bool) :
    KeepsKey (fun r => if p r then f r else r) where
  clash_left := fun a b => by
    split
    · exact hf.clash_left a b
    · rfl

def modify (t : Table R) (f : R → R) (hf : KeepsKey f) : Table R where
  rows := t.rows.map f
  distinct := List.pairwise_map.mpr (t.distinct.imp (fun {a b} h => by rwa [hf.clash_both]))

def relax (t : Table R) (f : R → R) (hf : ∀ a b, clash (f a) (f b) = true → clash a b = true) :
    Table R where
  rows := t.rows.map f
  distinct := List.pairwise_map.mpr (t.distinct.imp (fun {a b} h =>
    Bool.eq_false_iff.mpr (fun hc => by simp [hf a b hc] at h)))

def update (t : Table R) (p : R → Bool) (f : R → R) (hf : KeepsKey f) : Table R :=
  t.modify (fun r => if p r then f r else r) (hf.onlyIf p)

def delete (t : Table R) (p : R → Bool) : Table R where
  rows := t.rows.filter (fun r => !p r)
  distinct := t.distinct.filter _

def Agree (t u : Table R) (p : R → Prop) : Prop :=
  (∀ r ∈ t.rows, p r → r ∈ u.rows) ∧ ∀ r ∈ u.rows, p r → r ∈ t.rows

instance (t u : Table R) (p : R → Prop) [DecidablePred p] [DecidableEq R] :
    Decidable (t.Agree u p) := by
  unfold Agree
  infer_instance

def upsert (t : Table R) (r : R) (p : R → Bool) (f : R → R) (hf : KeepsKey f) :
    Option (Table R) :=
  if t.rows.any p then some (t.update p f hf) else t.insert r

variable {t u : Table R} {r x : R}

theorem agree_refl (t : Table R) (p : R → Prop) : t.Agree t p :=
  ⟨fun _ h _ => h, fun _ h _ => h⟩

theorem Agree.trans {v : Table R} {p : R → Prop} (htu : t.Agree u p) (huv : u.Agree v p) :
    t.Agree v p :=
  ⟨fun r hr hp => huv.1 r (htu.1 r hr hp) hp, fun r hr hp => htu.2 r (huv.2 r hr hp) hp⟩

theorem Agree.mem_iff {p : R → Prop} (h : t.Agree u p) (hp : p r) : r ∈ t.rows ↔ r ∈ u.rows :=
  ⟨fun hr => h.1 r hr hp, fun hr => h.2 r hr hp⟩

@[simp] theorem mem_add {h : t.Free r} : x ∈ (t.add r h).rows ↔ x ∈ t.rows ∨ x = r := by
  simp [add]

theorem insert_eq_some : t.insert r = some u ↔ ∃ h : t.Free r, t.add r h = u := by
  unfold insert
  split
  · rename_i h
    simp [h]
  · rename_i h
    simp [h]

theorem insert_of_free (h : t.Free r) : t.insert r = some (t.add r h) := dif_pos h

theorem mem_of_insert (h : t.insert r = some u) : x ∈ u.rows ↔ x ∈ t.rows ∨ x = r := by
  obtain ⟨hf, rfl⟩ := insert_eq_some.mp h
  exact mem_add

theorem insertOrIgnore_of_free (h : t.Free r) : t.insertOrIgnore r = t.add r h := by
  rw [insertOrIgnore, insert_of_free h, Option.getD_some]

theorem insertOrIgnore_of_not_free (h : ¬ t.Free r) : t.insertOrIgnore r = t := by
  rw [insertOrIgnore, insert, dif_neg h, Option.getD_none]

theorem mem_insertOrIgnore :
    x ∈ (t.insertOrIgnore r).rows ↔ x ∈ t.rows ∨ t.Free r ∧ x = r := by
  by_cases h : t.Free r
  · rw [insertOrIgnore_of_free h]
    simp [h]
  · rw [insertOrIgnore_of_not_free h]
    simp [h]

theorem mem_insertOrIgnore_of_mem (h : x ∈ t.rows) : x ∈ (t.insertOrIgnore r).rows :=
  mem_insertOrIgnore.mpr (Or.inl h)

@[simp] theorem mem_modify {f : R → R} {hf : KeepsKey f} :
    x ∈ (t.modify f hf).rows ↔ ∃ y ∈ t.rows, f y = x := by
  simp [modify]

@[simp] theorem update_rows {p : R → Bool} {f : R → R} {hf : KeepsKey f} :
    (t.update p f hf).rows = t.rows.map (fun r => if p r then f r else r) := rfl

theorem mem_update {p : R → Bool} {f : R → R} {hf : KeepsKey f} :
    x ∈ (t.update p f hf).rows ↔ ∃ y ∈ t.rows, (if p y then f y else y) = x := by
  simp [update]

theorem mem_update_of_pos (p : R → Bool) (f : R → R) (hf : KeepsKey f) (hr : r ∈ t.rows)
    (hp : p r = true) : f r ∈ (t.update p f hf).rows := mem_update.mpr ⟨r, hr, if_pos hp⟩

theorem mem_update_of_neg (p : R → Bool) (f : R → R) (hf : KeepsKey f) (hr : r ∈ t.rows)
    (hp : p r = false) : r ∈ (t.update p f hf).rows :=
  mem_update.mpr ⟨r, hr, by simp [hp]⟩

@[simp] theorem mem_delete {p : R → Bool} : x ∈ (t.delete p).rows ↔ x ∈ t.rows ∧ p x = false := by
  simp [delete]

instance : Std.Symm (fun a b : R => clash a b = false) where
  symm := fun a b h => by rwa [clash_comm]

theorem clash_of_ne (hr : r ∈ t.rows) (hx : x ∈ t.rows) (h : r ≠ x) : clash r x = false :=
  t.distinct.forall hr hx h

theorem eq_of_clash (hr : r ∈ t.rows) (hx : x ∈ t.rows) (h : clash r x = true) : r = x := by
  by_contra hne
  rw [clash_of_ne hr hx hne] at h
  cases h

theorem nodup (t : Table R) : t.rows.Nodup := by
  refine t.distinct.imp (fun {a b} h => ?_)
  rintro rfl
  rw [clash_self] at h
  cases h

theorem filter_eq_singleton {p : R → Bool} (hr : r ∈ t.rows) (hp : p r = true)
    (hu : ∀ x ∈ t.rows, p x = true → x = r) : t.rows.filter p = [r] := by
  have hperm : (t.rows.filter p).Perm [r] :=
    (List.perm_ext_iff_of_nodup (t.nodup.filter _) (List.nodup_singleton r)).mpr (fun x => by
      rw [List.mem_filter, List.mem_singleton]
      exact ⟨fun h => hu x h.1 h.2, fun h => h ▸ ⟨hr, hp⟩⟩)
  exact List.perm_singleton.mp hperm

theorem find?_eq_some_of_unique {p : R → Bool} (hr : r ∈ t.rows) (hp : p r = true)
    (hu : ∀ x ∈ t.rows, p x = true → x = r) : t.rows.find? p = some r := by
  cases h : t.rows.find? p with
  | none => exact absurd hp (List.find?_eq_none.mp h r hr)
  | some y => rw [hu y (List.mem_of_find?_eq_some h) (List.find?_some h)]

theorem find?_eq_some_iff {p : R → Bool} (hc : ∀ a b, p a = true → p b = true → clash a b = true) :
    t.rows.find? p = some r ↔ r ∈ t.rows ∧ p r = true := by
  constructor
  · exact fun h => ⟨List.mem_of_find?_eq_some h, List.find?_some h⟩
  · rintro ⟨hr, hp⟩
    exact find?_eq_some_of_unique hr hp (fun x hx hpx => eq_of_clash hx hr (hc x r hpx hp))

theorem upsert_of_any {p : R → Bool} {f : R → R} {hf : KeepsKey f} (h : t.rows.any p = true) :
    t.upsert r p f hf = some (t.update p f hf) := if_pos h

theorem upsert_of_not_any {p : R → Bool} {f : R → R} {hf : KeepsKey f}
    (h : t.rows.any p = false) : t.upsert r p f hf = t.insert r := by
  rw [upsert, if_neg (by simp [h])]

theorem of_mem_upsert {p : R → Bool} {f : R → R} {hf : KeepsKey f}
    (h : t.upsert r p f hf = some u) (hx : x ∈ u.rows) :
    x ∈ t.rows ∧ p x = false ∨ (∃ y ∈ t.rows, p y = true ∧ f y = x) ∨ x = r := by
  by_cases ha : t.rows.any p = true
  · rw [upsert_of_any ha] at h
    cases h
    obtain ⟨y, hy, rfl⟩ := mem_update.mp hx
    split
    · rename_i hp
      exact Or.inr (Or.inl ⟨y, hy, hp, rfl⟩)
    · rename_i hp
      exact Or.inl ⟨hy, Bool.eq_false_iff.mpr hp⟩
  · rw [upsert_of_not_any (Bool.eq_false_iff.mpr ha)] at h
    rcases (mem_of_insert h).mp hx with hm | rfl
    · refine Or.inl ⟨hm, Bool.eq_false_iff.mpr (fun hp => ha ?_)⟩
      exact List.any_eq_true.mpr ⟨x, hm, hp⟩
    · exact Or.inr (Or.inr rfl)

theorem upsert_mem {p : R → Bool} {f : R → R} {hf : KeepsKey f}
    (h : t.upsert r p f hf = some u) : r ∈ u.rows ∨ ∃ y ∈ t.rows, p y = true ∧ f y ∈ u.rows := by
  by_cases ha : t.rows.any p = true
  · rw [upsert_of_any ha] at h
    cases h
    obtain ⟨y, hy, hp⟩ := List.any_eq_true.mp ha
    exact Or.inr ⟨y, hy, hp, mem_update_of_pos p f hf hy hp⟩
  · rw [upsert_of_not_any (Bool.eq_false_iff.mpr ha)] at h
    exact Or.inl ((mem_of_insert h).mpr (Or.inr rfl))

end Table

end Tables
