import Mathlib.Data.List.Dedup
import Mathlib.Data.List.Perm.Subperm
import Mathlib.Logic.Relation
import Mathlib.Tactic.Common

namespace Closure

variable {A : Type} [DecidableEq A] (next : A → List A)

-- The evaluation of a recursive UNION: rows leave the queue one by one, and each brings the rows
-- that were never queued before. The fuel bounds how many rows leave the queue.
def recursiveUnion : Nat → List A → List A → List A
  | 0, processed, queue => processed ++ queue
  | _ + 1, processed, [] => processed
  | fuel + 1, processed, a :: queue =>
    recursiveUnion fuel (processed ++ [a])
      (queue ++ (next a).dedup.filter (fun b => b ∉ processed ++ a :: queue))

def Reachable (initial : List A) (b : A) : Prop :=
  ∃ a ∈ initial, Relation.ReflTransGen (fun x y => y ∈ next x) a b

variable {next} {initial processed queue rows : List A} {fuel : Nat}

structure Explored (next : A → List A) (initial processed queue : List A) : Prop where
  nodup : (processed ++ queue).Nodup
  starts : ∀ a ∈ initial, a ∈ processed ++ queue
  closed : ∀ a ∈ processed, ∀ b ∈ next a, b ∈ processed ++ queue
  reached : ∀ b ∈ processed ++ queue, Reachable next initial b

theorem Explored.step {a : A} (h : Explored next initial processed (a :: queue)) :
    Explored next initial (processed ++ [a])
      (queue ++ (next a).dedup.filter (fun b => b ∉ processed ++ a :: queue)) := by
  have hsplit : ∀ rest, (processed ++ [a]) ++ (queue ++ rest) = (processed ++ a :: queue) ++ rest :=
    fun rest => by simp
  constructor
  · rw [hsplit]
    refine h.nodup.append ((List.nodup_dedup _).filter _) (fun b hb hf => ?_)
    simp only [List.mem_filter, decide_eq_true_eq] at hf
    exact hf.2 hb
  · intro b hb
    rw [hsplit]
    exact List.mem_append_left _ (h.starts b hb)
  · intro x hx b hb
    rw [hsplit]
    by_cases hq : b ∈ processed ++ a :: queue
    · exact List.mem_append_left _ hq
    · rcases List.mem_append.mp hx with hx | hx
      · exact List.mem_append_left _ (h.closed x hx b hb)
      · rw [List.mem_singleton.mp hx] at hb
        refine List.mem_append_right _ (List.mem_filter.mpr ⟨List.mem_dedup.mpr hb, ?_⟩)
        exact decide_eq_true hq
  · intro b hb
    rw [hsplit] at hb
    rcases List.mem_append.mp hb with hb | hb
    · exact h.reached b hb
    · simp only [List.mem_filter, List.mem_dedup] at hb
      obtain ⟨i, hi, hia⟩ := h.reached a (by simp)
      exact ⟨i, hi, hia.tail hb.1⟩

omit [DecidableEq A] in
theorem Explored.finished (h : Explored next initial processed []) :
    processed.Nodup ∧ ∀ b, b ∈ processed ↔ Reachable next initial b := by
  have hnil : processed ++ [] = processed := List.append_nil _
  refine ⟨hnil ▸ h.nodup, fun b => ⟨fun hb => h.reached b (by simpa using hb), ?_⟩⟩
  rintro ⟨a, ha, hab⟩
  have hstart : a ∈ processed := by simpa using h.starts a ha
  induction hab with
  | refl => exact hstart
  | tail _ hstep ih => simpa using h.closed _ ih _ hstep

theorem recursiveUnion_spec (hn : ∀ a ∈ rows, ∀ b ∈ next a, b ∈ rows)
    (h : Explored next initial processed queue)
    (hu : ∀ b ∈ processed ++ queue, b ∈ rows)
    (hf : rows.length ≤ fuel + processed.length) :
    (recursiveUnion next fuel processed queue).Nodup ∧
      ∀ b, b ∈ recursiveUnion next fuel processed queue ↔ Reachable next initial b := by
  induction fuel generalizing processed queue with
  | zero =>
    have hlen : (processed ++ queue).length ≤ rows.length :=
      (h.nodup.subperm hu).length_le
    have hq : queue = [] := by
      rw [List.length_append] at hlen
      exact List.eq_nil_of_length_eq_zero (by omega)
    subst hq
    simpa [recursiveUnion] using h.finished
  | succ fuel ih =>
    cases queue with
    | nil => exact h.finished
    | cons a queue =>
      rw [recursiveUnion]
      refine ih h.step ?_ (by simp only [List.length_append, List.length_singleton]; omega)
      intro b hb
      have ha : a ∈ rows := hu a (by simp)
      simp only [List.mem_append, List.mem_singleton, List.mem_filter, List.mem_dedup] at hb
      rcases hb with (hb | rfl) | hb | ⟨hb, -⟩
      · exact hu b (by simp [hb])
      · exact ha
      · exact hu b (by simp [hb])
      · exact hn a ha b hb

theorem recursiveUnion_initial (hn : ∀ a ∈ rows, ∀ b ∈ next a, b ∈ rows)
    (hi : ∀ a ∈ initial, a ∈ rows) :
    (recursiveUnion next rows.length [] initial.dedup).Nodup ∧
      ∀ b, b ∈ recursiveUnion next rows.length [] initial.dedup ↔
        Reachable next initial b := by
  refine recursiveUnion_spec hn ⟨?_, ?_, ?_, ?_⟩ ?_ (by simp)
  · simpa using List.nodup_dedup initial
  · simp
  · simp
  · exact fun b hb => ⟨b, by simpa using hb, .refl⟩
  · exact fun b hb => hi b (by simpa using hb)

abbrev Progress (A : Type) := List A × List A

inductive Round (next : A → List A) : Progress A → Progress A → Prop
  | leave (processed before after : List A) (a : A) :
    Round next (processed, before ++ a :: after) (processed ++ [a], before ++ after ++
      (next a).dedup.filter (fun b => b ∉ processed ++ (before ++ a :: after)))

structure Kept (next : A → List A) (rows initial : List A) (s : Progress A) : Prop where
  explored : Explored next initial s.1 s.2
  known : ∀ b ∈ s.1 ++ s.2, b ∈ rows

omit [DecidableEq A] in
theorem Explored.perm {queue' : List A} (h : Explored next initial processed queue)
    (hp : queue.Perm queue') : Explored next initial processed queue' := by
  have hall : (processed ++ queue).Perm (processed ++ queue') := hp.append_left processed
  exact ⟨hall.nodup_iff.mp h.nodup, fun a ha => hall.mem_iff.mp (h.starts a ha),
    fun a ha b hb => hall.mem_iff.mp (h.closed a ha b hb),
    fun b hb => h.reached b (hall.mem_iff.mpr hb)⟩

theorem Round.kept {s t : Progress A} (hn : ∀ a ∈ rows, ∀ b ∈ next a, b ∈ rows)
    (hr : Round next s t) (h : Kept next rows initial s) : Kept next rows initial t := by
  obtain ⟨processed, before, after, a⟩ := hr
  have hperm : (before ++ a :: after).Perm (a :: (before ++ after)) := List.perm_middle
  have hmem : ∀ b, b ∈ processed ++ (before ++ a :: after) ↔
      b ∈ processed ++ a :: (before ++ after) := fun b => (hperm.append_left processed).mem_iff
  refine ⟨?_, fun b hb => ?_⟩
  · simp only [hmem]
    exact (h.explored.perm hperm).step
  · have hold : ∀ b ∈ processed ++ (before ++ a :: after), b ∈ rows := h.known
    simp only [List.mem_append, List.mem_singleton, List.mem_filter, List.mem_dedup] at hb
    rcases hb with (hb | rfl) | (hb | hb) | ⟨hb, -⟩
    · exact hold b (by simp [hb])
    · exact hold b (by simp)
    · exact hold b (by simp [hb])
    · exact hold b (by simp [hb])
    · exact hn a (hold a (by simp)) b hb

theorem Round.length {s t : Progress A} (hr : Round next s t) : t.1.length = s.1.length + 1 := by
  obtain ⟨processed, before, after, a⟩ := hr
  simp

theorem kept_initial (hi : ∀ a ∈ initial, a ∈ rows) :
    Kept next rows initial ([], initial.dedup) := by
  refine ⟨⟨?_, ?_, ?_, ?_⟩, ?_⟩
  · simpa using List.nodup_dedup initial
  · simp
  · simp
  · exact fun b hb => ⟨b, by simpa using hb, .refl⟩
  · exact fun b hb => hi b (by simpa using hb)

theorem rounds_end (hn : ∀ a ∈ rows, ∀ b ∈ next a, b ∈ rows) (hi : ∀ a ∈ initial, a ∈ rows)
    (states : Nat → Progress A) (hs : states 0 = ([], initial.dedup)) :
    ¬ ∀ n, n ≤ rows.length → Round next (states n) (states (n + 1)) := by
  intro hrounds
  have hkept : ∀ n, n ≤ rows.length + 1 →
      Kept next rows initial (states n) ∧ (states n).1.length = n := by
    intro n hle
    induction n with
    | zero => exact hs ▸ ⟨kept_initial hi, rfl⟩
    | succ n ih =>
      obtain ⟨hk, hl⟩ := ih (by omega)
      have hround := hrounds n (by omega)
      exact ⟨hround.kept hn hk, by rw [hround.length, hl]⟩
  obtain ⟨hk, hl⟩ := hkept (rows.length + 1) (Nat.le_refl _)
  have hlen := (hk.explored.nodup.subperm hk.known).length_le
  rw [List.length_append, hl] at hlen
  omega

theorem rounds_exact (hn : ∀ a ∈ rows, ∀ b ∈ next a, b ∈ rows) (hi : ∀ a ∈ initial, a ∈ rows)
    {result : List A}
    (h : Relation.ReflTransGen (Round next) ([], initial.dedup) (result, [])) :
    result.Nodup ∧ ∀ b, b ∈ result ↔ Reachable next initial b := by
  have hkept : ∀ s, Relation.ReflTransGen (Round next) ([], initial.dedup) s →
      Kept next rows initial s := by
    intro s hs
    induction hs with
    | refl => exact kept_initial hi
    | tail _ hround ih => exact hround.kept hn ih
  exact (hkept _ h).explored.finished

theorem recursiveUnion_rounds (hn : ∀ a ∈ rows, ∀ b ∈ next a, b ∈ rows) {s : Progress A}
    (h : Kept next rows initial s) (hf : rows.length ≤ fuel + s.1.length) :
    Relation.ReflTransGen (Round next) s (recursiveUnion next fuel s.1 s.2, []) := by
  induction fuel generalizing s with
  | zero =>
    obtain ⟨processed, queue⟩ := s
    have hlen := (h.explored.nodup.subperm h.known).length_le
    rw [List.length_append] at hlen
    simp only at hlen hf
    have hq : queue = [] := List.eq_nil_of_length_eq_zero (by omega)
    rw [hq, recursiveUnion, List.append_nil]
  | succ fuel ih =>
    obtain ⟨processed, queue⟩ := s
    cases queue with
    | nil => exact .refl
    | cons a queue =>
      have hround := @Round.leave _ _ next processed [] queue a
      rw [List.nil_append, List.nil_append] at hround
      refine .head hround ?_
      have hlen := hround.length
      exact ih (hround.kept hn h) (by omega)

end Closure
