import Mathlib.Data.Finset.Card
import Mathlib.Data.Finset.Range
import ProjectCache.Lib.Pool

namespace Programs

universe u

variable {I : Interface.{u}} {M : Machine I} {Q A B : Type}

namespace Prog

def AtMost (counted : I.Call → Prop) : Prog I A → Nat → Prop
  | .done _, _ => True
  | .call c resume, count =>
    ∃ left ≤ count, (counted c → left < count) ∧ ∀ r, (resume r).AtMost counted left

namespace AtMost

variable {counted : I.Call → Prop} {p : Prog I A} {m n : Nat}

theorem mono (h : p.AtMost counted m) (hmn : m ≤ n) : p.AtMost counted n := by
  cases p with
  | done r => trivial
  | call c resume =>
    obtain ⟨left, hle, hlt, hr⟩ := h
    exact ⟨left, by omega, fun hc => lt_of_lt_of_le (hlt hc) hmn, hr⟩

theorem bind {f : A → Prog I B} (hp : p.AtMost counted m) (hf : ∀ a, (f a).AtMost counted n) :
    (p.bind f).AtMost counted (m + n) := by
  induction p generalizing m with
  | done r =>
    cases r with
    | ok a => exact (hf a).mono (Nat.le_add_left n m)
    | error x => trivial
  | call c resume ih =>
    obtain ⟨left, hle, hlt, hr⟩ := hp
    exact ⟨left + n, by omega, fun hc => Nat.add_lt_add_right (hlt hc) n, fun r => ih r (hr r)⟩

theorem attempt (hp : p.AtMost counted m) : p.attempt.AtMost counted m := by
  induction p generalizing m with
  | done r => trivial
  | call c resume ih =>
    obtain ⟨left, hle, hlt, hr⟩ := hp
    exact ⟨left, hle, hlt, fun r => ih r (hr r)⟩

end AtMost

end Prog

namespace Pool

section

variable {program : Q → Prog I A} {start : Pool M Q A} {schedule : Schedule M Q}
  {counted : I.Call → Prop}

def Makes (program : Q → Prog I A) (start : Pool M Q A) (schedule : Schedule M Q)
    (counted : I.Call → Prop) (i k : Nat) : Prop :=
  ∃ event, counted event.call ∧ Happens program start schedule i k event

open Classical in
noncomputable def stepsOf (program : Q → Prog I A) (start : Pool M Q A) (schedule : Schedule M Q)
    (counted : I.Call → Prop) (i n : Nat) : Finset Nat :=
  (Finset.range n).filter (Makes program start schedule counted i)

variable (program start schedule counted) in
theorem card_stepsOf_succ (i n : Nat) :
    (stepsOf program start schedule counted i (n + 1)).card ≤
        (stepsOf program start schedule counted i n).card + 1 ∧
      (¬ Makes program start schedule counted i n →
        (stepsOf program start schedule counted i (n + 1)).card =
          (stepsOf program start schedule counted i n).card) := by
  classical
  unfold stepsOf
  rw [Finset.range_add_one, Finset.filter_insert]
  split
  · rename_i hm
    exact ⟨Finset.card_insert_le _ _, fun hn => absurd hm hn⟩
  · exact ⟨Nat.le_succ _, fun _ => rfl⟩

variable (schedule) in
theorem card_stepsOf_le (h0 : start.tasks = []) {bound : Nat}
    (hp : ∀ q, (program q).AtMost counted bound) (i n : Nat) :
    ((run program start schedule n).tasks[i]? = none →
      (stepsOf program start schedule counted i n).card = 0) ∧
    ∀ q rest, (run program start schedule n).tasks[i]? = some ⟨q, rest⟩ →
      ∃ left, rest.AtMost counted left ∧
        (stepsOf program start schedule counted i n).card + left ≤ bound := by
  induction n with
  | zero =>
    refine ⟨fun _ => by simp [stepsOf], fun q rest hi => ?_⟩
    simp [run, h0] at hi
  | succ n ih =>
    obtain ⟨hnone, hsome⟩ := ih
    obtain ⟨hle, hsame⟩ := card_stepsOf_succ program start schedule counted i n
    by_cases hi : schedule.choice n = .advance i
    · cases ht : (run program start schedule n).tasks[i]? with
      | none =>
        have hquiet : ¬ Makes program start schedule counted i n := by
          rintro ⟨event, -, hh⟩
          obtain ⟨q, resume, hc⟩ := hh.atCall
          rw [AtCall, ht] at hc
          cases hc
        have hrun : run program start schedule (n + 1) = run program start schedule n := by
          rw [run, hi, next, ht]
        rw [hrun, hsame hquiet]
        exact ⟨hnone, hsome⟩
      | some task =>
        obtain ⟨q, now⟩ := task
        obtain ⟨left, hleft, hsum⟩ := hsome q now ht
        cases now with
        | done x =>
          have hquiet : ¬ Makes program start schedule counted i n := by
            rintro ⟨event, -, hh⟩
            obtain ⟨r, resume, hc⟩ := hh.atCall
            rw [AtCall, ht] at hc
            cases hc
          rw [run_succ_of_done hi ht, hsame hquiet]
          exact ⟨hnone, hsome⟩
        | call c resume =>
          rw [run_succ_of_atCall hi ht]
          refine ⟨fun hn => ?_, fun r rest hr => ?_⟩
          · rw [List.getElem?_set_self (atCall_lt ht)] at hn
            cases hn
          · rw [List.getElem?_set_self (atCall_lt ht), Option.some.injEq, Task.mk.injEq] at hr
            obtain ⟨rfl, rfl⟩ := hr
            obtain ⟨later, hlater, hlt, hrest⟩ := hleft
            refine ⟨later, hrest _, ?_⟩
            by_cases hc : counted c
            · have := hlt hc
              omega
            · have hquiet : ¬ Makes program start schedule counted i n := by
                rintro ⟨event, hcounted, hh⟩
                obtain ⟨r, next, hat⟩ := hh.atCall
                rw [AtCall, ht] at hat
                cases hat
                exact hc hcounted
              rw [hsame hquiet]
              omega
    · have hquiet : ¬ Makes program start schedule counted i n := by
        rintro ⟨event, -, hh⟩
        exact hi hh.chosen
      rw [hsame hquiet]
      have hm : (run program start schedule n).Moves program (schedule.choice n)
          (schedule.env n) (run program start schedule (n + 1)) := moves_next _ _ _
      refine ⟨fun hn => hnone ?_, fun q rest hr => ?_⟩
      · by_contra hne
        obtain ⟨task, htask⟩ := Option.ne_none_iff_exists'.mp hne
        rw [hm.task_of_ne htask hi] at hn
        cases hn
      · cases ht : (run program start schedule n).tasks[i]? with
        | some task =>
          rw [hm.task_of_ne ht hi] at hr
          cases hr
          exact hsome q rest ht
        | none =>
          rcases hm.task_submitted hr with ⟨old, hold⟩ | rfl
          · rw [ht] at hold
            cases hold
          · exact ⟨bound, hp q, by rw [hnone ht]; omega⟩

theorem card_stepsOf_bounded (h0 : start.tasks = []) {bound : Nat}
    (hp : ∀ q, (program q).AtMost counted bound) (i n : Nat) :
    (stepsOf program start schedule counted i n).card ≤ bound := by
  obtain ⟨hnone, hsome⟩ := card_stepsOf_le schedule h0 hp i n
  cases ht : (run program start schedule n).tasks[i]? with
  | none => rw [hnone ht]; exact Nat.zero_le bound
  | some task =>
    obtain ⟨left, -, hle⟩ := hsome task.request task.rest ht
    omega

end

structure Relies (program : Q → Prog I A) (surrounding : M.Surrounding)
    (check : Q → I.Call → M.Env → M.State → Prop) (post : Q → Except I.Error A → M.State → Prop)
    (invariant : M.State → Prop) : Prop where
  refl : ∀ s, surrounding.later s s
  trans : ∀ {a b c}, surrounding.later a b → surrounding.later b c → surrounding.later a c
  kept : ∀ {s t}, invariant s → surrounding.later s t → invariant t
  stable : ∀ {q r s t}, post q r s → surrounding.later s t → post q r t
  outline : ∀ q s, invariant s →
    Outline surrounding (fun c e t _ => check q c e t) (post q) (program q) s
  guarantee : ∀ {q c e t}, check q c e t → surrounding.admits e t →
    surrounding.later t (M.answer c e t).1

namespace Relies

variable {program : Q → Prog I A} {start : Pool M Q A} {schedule : Schedule M Q}
  {surrounding : M.Surrounding} {check : Q → I.Call → M.Env → M.State → Prop}
  {post : Q → Except I.Error A → M.State → Prop} {invariant : M.State → Prop}

def Outlined (surrounding : M.Surrounding) (check : Q → I.Call → M.Env → M.State → Prop)
    (post : Q → Except I.Error A → M.State → Prop) (pool : Pool M Q A) : Prop :=
  ∀ task ∈ pool.tasks, Outline surrounding (fun c e t _ => check task.request c e t)
    (post task.request) task.rest pool.state

theorem next (h : Relies program surrounding check post invariant) {pool next : Pool M Q A}
    {choice : Choice Q} {e : M.Env} (he : surrounding.admits e pool.state)
    (hinv : invariant pool.state) (ho : Outlined surrounding check post pool)
    (hm : pool.Moves program choice e next) :
    surrounding.later pool.state next.state ∧ Outlined surrounding check post next := by
  cases hm with
  | submit q hq =>
    refine ⟨h.refl _, fun task ht => ?_⟩
    rcases List.mem_append.mp ht with ht | ht
    · exact ho task ht
    · rw [List.mem_singleton.mp ht]
      exact h.outline q _ hinv
  | advance i q c resume hi hc =>
    have hmem := List.mem_of_getElem? hc
    obtain ⟨hcheck, hrest⟩ := ho _ hmem pool.state (h.refl _) e he
    have hl := h.guarantee hcheck he
    refine ⟨hl, fun task ht => ?_⟩
    rcases List.mem_or_eq_of_mem_set ht with ht | rfl
    · exact (ho task ht).later h.trans h.stable hl
    · exact hrest
  | stay => exact ⟨h.refl _, ho⟩

theorem run (h : Relies program surrounding check post invariant) (h0 : start.tasks = [])
    (hinv : invariant start.state)
    (he : ∀ n, surrounding.admits (schedule.env n) (Pool.run program start schedule n).state)
    (n : Nat) : invariant (Pool.run program start schedule n).state ∧
      Outlined surrounding check post (Pool.run program start schedule n) := by
  induction n with
  | zero => exact ⟨hinv, fun task ht => by simp [Pool.run, h0] at ht⟩
  | succ n ih =>
    obtain ⟨hl, ho⟩ := h.next (he n) ih.1 ih.2 (moves_next _ _ _)
    exact ⟨h.kept ih.1 hl, ho⟩

theorem finished (h : Relies program surrounding check post invariant) (h0 : start.tasks = [])
    (hinv : invariant start.state)
    (he : ∀ n, surrounding.admits (schedule.env n) (Pool.run program start schedule n).state)
    {n i : Nat} {q : Q} {r : Except I.Error A}
    (hi : (Pool.run program start schedule n).tasks[i]? = some ⟨q, .done r⟩) :
    post q r (Pool.run program start schedule n).state :=
  (h.run h0 hinv he n).2 _ (List.mem_of_getElem? hi)

theorem called (h : Relies program surrounding check post invariant) (h0 : start.tasks = [])
    (hinv : invariant start.state)
    (he : ∀ n, surrounding.admits (schedule.env n) (Pool.run program start schedule n).state)
    {n i : Nat} {q : Q} {c : I.Call} {resume : Except I.Error (I.Reply c) → Prog I A}
    (hc : (Pool.run program start schedule n).AtCall i q c resume) :
    check q c (schedule.env n) (Pool.run program start schedule n).state :=
  check_of_atCall h.refl ((h.run h0 hinv he n).2 _ (List.mem_of_getElem? hc)) (he n)

end Relies

end Pool

end Programs
