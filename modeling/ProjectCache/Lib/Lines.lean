import ProjectCache.Lib.Text

namespace Textual

variable {p t v : Text}

def addedLines (v : Text) : List Text :=
  match v.dropWhile (· ≠ '\n') with
  | [] => []
  | _ :: rest => pieces rest

theorem addedLines_of_not_mem (h : '\n' ∉ v) : addedLines v = [] := by
  have hall : v.dropWhile (· ≠ '\n') = [] := by
    rw [List.dropWhile_eq_nil_iff]
    intro c hc
    simpa using fun e : c = '\n' => h (e ▸ hc)
  rw [addedLines, hall]

theorem addedLines_append (h : '\n' ∉ p) (v : Text) : addedLines (p ++ v) = addedLines v := by
  have hdrop : (p ++ v).dropWhile (· ≠ '\n') = v.dropWhile (· ≠ '\n') := by
    apply List.dropWhile_append_of_pos
    intro c hc
    simpa using fun e : c = '\n' => h (e ▸ hc)
  rw [addedLines, addedLines, hdrop]

theorem addedLines_break (h : '\n' ∉ p) (v : Text) : addedLines (p ++ '\n' :: v) = pieces v := by
  rw [addedLines_append h]
  rfl

theorem pieces_eq (v : Text) : pieces v = firstPiece v :: addedLines v := by
  obtain ⟨rest, hr⟩ := pieces_head v
  rw [hr]
  congr 1
  by_cases hn : '\n' ∈ v
  · obtain ⟨a, b, rfl, ha⟩ := List.eq_append_cons_of_mem hn
    rw [pieces, List.splitOn_append_cons_self_of_not_mem ha, List.map_cons] at hr
    rw [addedLines_break ha]
    exact (List.cons.inj hr).2.symm
  · rw [pieces, List.splitOn_eq_singleton hn, List.map_singleton] at hr
    rw [addedLines_of_not_mem hn]
    exact (List.cons.inj hr).2.symm

theorem pieces_append (hp : SingleLine p) (v : Text) :
    pieces (p ++ v) = (p ++ firstPiece v) :: addedLines v := by
  rw [pieces_eq, firstPiece_append hp, addedLines_append hp.1]

theorem pieces_break (h : '\n' ∉ p) (v : Text) :
    pieces (p ++ '\n' :: v) = stripCr p :: pieces v := by
  rw [pieces, List.splitOn_append_cons_self_of_not_mem h, List.map_cons]
  rfl

theorem singleLine_append_of_ne_nil (h : '\n' ∉ p) (ht : SingleLine t) (hne : t ≠ []) :
    SingleLine (p ++ t) := by
  refine ⟨by simp [h, ht.1], ?_⟩
  rw [List.getLast?_append_of_ne_nil _ hne]
  exact ht.2

theorem pieces_append_last (b : Text) : ∃ (early : List Text) (last : Text), ∀ t, SingleLine t →
    t ≠ [] → pieces (b ++ t) = early ++ [last ++ t] := by
  induction hl : b.length using Nat.strongRecOn generalizing b with
  | _ length ih =>
    by_cases hn : '\n' ∈ b
    · obtain ⟨x, y, rfl, hx⟩ := List.eq_append_cons_of_mem hn
      obtain ⟨early, last, hpieces⟩ := ih y.length (by simp at hl; omega) y rfl
      refine ⟨stripCr x :: early, last, fun t ht hne => ?_⟩
      rw [List.append_assoc, List.cons_append, pieces_break hx, hpieces t ht hne, List.cons_append]
    · exact ⟨[], b, fun t ht hne => pieces_singleLine (singleLine_append_of_ne_nil hn ht hne)⟩

theorem addedLines_append_last (b : Text) : (∀ t, SingleLine t → addedLines (b ++ t) = []) ∨
    ∃ (early : List Text) (last : Text), ∀ t, SingleLine t → t ≠ [] →
      addedLines (b ++ t) = early ++ [last ++ t] := by
  by_cases hn : '\n' ∈ b
  · obtain ⟨x, y, rfl, hx⟩ := List.eq_append_cons_of_mem hn
    obtain ⟨early, last, hpieces⟩ := pieces_append_last y
    refine .inr ⟨early, last, fun t ht hne => ?_⟩
    rw [List.append_assoc, List.cons_append, addedLines_break hx, hpieces t ht hne]
  · exact .inl (fun t ht => addedLines_of_not_mem (by simp [hn, ht.1]))

theorem mem_of_mem_stripCr {c : Char} (h : c ∈ stripCr v) : c ∈ v := by
  by_cases hv : ∃ t, v = t ++ ['\r']
  · obtain ⟨t, rfl⟩ := hv
    rw [stripCr_append_cr] at h
    exact List.mem_append_left _ h
  · rwa [stripCr_eq_self (by simpa using hv)] at h

theorem not_mem_lines {l : Text} (h : l ∈ lines v) : '\n' ∉ l := by
  have hsplit : ∀ w ∈ v.splitOn '\n', '\n' ∉ w := by
    intro w hw hn
    rw [List.splitOn_eq_splitOnP] at hw
    simpa using forall_mem_splitOnP hw _ hn
  rw [lines, List.mem_append, List.mem_map] at h
  rcases h with ⟨w, hw, rfl⟩ | h
  · exact fun hn => hsplit w (List.mem_of_mem_dropLast hw) (mem_of_mem_stripCr hn)
  · have hlast := (List.mem_filter.mp h).1
    rw [Option.mem_toList] at hlast
    exact hsplit l (List.mem_of_getLast? hlast)

end Textual
