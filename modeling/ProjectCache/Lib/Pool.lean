import Mathlib.Data.Nat.Init
import ProjectCache.Lib.Program

namespace Programs

universe u

variable {I : Interface.{u}} {M : Machine I} {Q A : Type}

structure Task (I : Interface.{u}) (Q A : Type) where
  request : Q
  rest : Prog I A

namespace Task

def running (task : Task I Q A) : Bool :=
  match task.rest with
  | .done _ => false
  | .call _ _ => true

end Task

structure Pool (M : Machine I) (Q A : Type) where
  state : M.State
  tasks : List (Task I Q A)

inductive Choice (Q : Type) where
  | submit (request : Q)
  | advance (i : Nat)
  | idle
  deriving DecidableEq

namespace Pool

variable (program : Q → Prog I A)

def AtCall (pool : Pool M Q A) (i : Nat) (q : Q) (c : I.Call)
    (resume : Except I.Error (I.Reply c) → Prog I A) : Prop :=
  pool.tasks[i]? = some ⟨q, .call c resume⟩

def next (pool : Pool M Q A) (choice : Choice Q) (e : M.Env) : Pool M Q A :=
  match choice with
  | .submit q => { pool with tasks := pool.tasks ++ [⟨q, program q⟩] }
  | .advance i =>
    match pool.tasks[i]? with
    | some ⟨q, .call c resume⟩ =>
      { state := (M.answer c e pool.state).1
        tasks := pool.tasks.set i ⟨q, resume (M.answer c e pool.state).2⟩ }
    | _ => pool
  | .idle => pool

structure Schedule (M : Machine I) (Q : Type) where
  choice : Nat → Choice Q
  env : Nat → M.Env

def run (start : Pool M Q A) (schedule : Schedule M Q) : Nat → Pool M Q A
  | 0 => start
  | n + 1 => (run start schedule n).next program (schedule.choice n) (schedule.env n)

inductive Moves (pool : Pool M Q A) (choice : Choice Q) (e : M.Env) : Pool M Q A → Prop
  | submit (q : Q) (h : choice = .submit q) :
    Moves pool choice e { pool with tasks := pool.tasks ++ [⟨q, program q⟩] }
  | advance (i : Nat) (q : Q) (c : I.Call) (resume : Except I.Error (I.Reply c) → Prog I A)
    (h : choice = .advance i) (hc : pool.AtCall i q c resume) :
    Moves pool choice e
      { state := (M.answer c e pool.state).1
        tasks := pool.tasks.set i ⟨q, resume (M.answer c e pool.state).2⟩ }
  | stay : Moves pool choice e pool

variable {program}

theorem moves_next (pool : Pool M Q A) (choice : Choice Q) (e : M.Env) :
    pool.Moves program choice e (pool.next program choice e) := by
  cases choice with
  | submit q => exact .submit q rfl
  | idle => exact .stay
  | advance i =>
    simp only [next]
    split
    · rename_i q c resume h
      exact .advance i q c resume rfl h
    · exact .stay

theorem next_of_atCall {pool : Pool M Q A} {i : Nat} {q : Q} {c : I.Call}
    {resume : Except I.Error (I.Reply c) → Prog I A} (h : pool.AtCall i q c resume) (e : M.Env) :
    pool.next program (.advance i) e =
      { state := (M.answer c e pool.state).1
        tasks := pool.tasks.set i ⟨q, resume (M.answer c e pool.state).2⟩ } := by
  simp only [next]
  rw [h]

theorem atCall_lt {pool : Pool M Q A} {i : Nat} {q : Q} {c : I.Call}
    {resume : Except I.Error (I.Reply c) → Prog I A} (h : pool.AtCall i q c resume) :
    i < pool.tasks.length := by
  by_contra hge
  rw [AtCall, List.getElem?_eq_none (Nat.not_lt.mp hge)] at h
  cases h

theorem run_induction {start : Pool M Q A} {schedule : Schedule M Q}
    (holds : Nat → Pool M Q A → Prop) (h0 : holds 0 start)
    (hs : ∀ n pool next, holds n pool →
      pool.Moves program (schedule.choice n) (schedule.env n) next → holds (n + 1) next) (n : Nat) :
    holds n (run program start schedule n) := by
  induction n with
  | zero => exact h0
  | succ n ih => exact hs n _ _ ih (moves_next _ _ _)

variable {start : Pool M Q A} {schedule : Schedule M Q}

theorem Moves.task_of_ne {pool next : Pool M Q A} {choice : Choice Q} {e : M.Env} {i : Nat}
    {task : Task I Q A} (hm : pool.Moves program choice e next) (h : pool.tasks[i]? = some task)
    (hi : choice ≠ .advance i) : next.tasks[i]? = some task := by
  have hlt : i < pool.tasks.length := (List.getElem?_eq_some_iff.mp h).1
  cases hm with
  | submit q hq =>
    rw [List.getElem?_append_left hlt]
    exact h
  | advance j q c resume hj hc =>
    have hne : j ≠ i := fun hji => hi (hji ▸ hj)
    rw [List.getElem?_set_ne hne]
    exact h
  | stay => exact h

theorem run_succ_of_atCall {n i : Nat} {q : Q} {c : I.Call}
    {resume : Except I.Error (I.Reply c) → Prog I A}
    (hc : schedule.choice n = .advance i) (h : (run program start schedule n).AtCall i q c resume) :
    run program start schedule (n + 1) =
      { state := (M.answer c (schedule.env n) (run program start schedule n).state).1
        tasks := (run program start schedule n).tasks.set i
          ⟨q, resume (M.answer c (schedule.env n) (run program start schedule n).state).2⟩ } := by
  rw [run, hc, next_of_atCall h]

theorem task_succ_of_atCall {n i : Nat} {q : Q} {c : I.Call}
    {resume : Except I.Error (I.Reply c) → Prog I A}
    (hc : schedule.choice n = .advance i) (h : (run program start schedule n).AtCall i q c resume) :
    (run program start schedule (n + 1)).tasks[i]? = some
      ⟨q, resume (M.answer c (schedule.env n) (run program start schedule n).state).2⟩ := by
  rw [run_succ_of_atCall hc h, List.getElem?_set_self (atCall_lt h)]

theorem run_succ_of_done {n i : Nat} {q : Q} {r : Except I.Error A}
    (hc : schedule.choice n = .advance i)
    (h : (run program start schedule n).tasks[i]? = some ⟨q, .done r⟩) :
    run program start schedule (n + 1) = run program start schedule n := by
  rw [run, hc, next, h]

theorem Moves.task_submitted {pool next : Pool M Q A} {choice : Choice Q} {e : M.Env} {i : Nat}
    {q : Q} {p : Prog I A} (hm : pool.Moves program choice e next)
    (h : next.tasks[i]? = some ⟨q, p⟩) :
    (∃ r, pool.tasks[i]? = some ⟨q, r⟩) ∨ p = program q := by
  cases hm with
  | submit r hr =>
    rcases Nat.lt_or_ge i pool.tasks.length with hlt | hge
    · rw [List.getElem?_append_left hlt] at h
      exact Or.inl ⟨p, h⟩
    · rw [List.getElem?_append_right hge] at h
      obtain ⟨hi, heq⟩ := List.getElem?_eq_some_iff.mp h
      simp only [List.getElem_singleton, Task.mk.injEq] at heq
      exact Or.inr (heq.1 ▸ heq.2.symm)
  | advance j r c resume hj hc =>
    by_cases hji : j = i
    · subst hji
      rw [List.getElem?_set_self (atCall_lt hc), Option.some.injEq, Task.mk.injEq] at h
      exact Or.inl ⟨_, h.1 ▸ hc⟩
    · rw [List.getElem?_set_ne hji] at h
      exact Or.inl ⟨p, h⟩
  | stay => exact Or.inl ⟨p, h⟩

theorem submitted_of_task (h0 : start.tasks = []) {n i : Nat} {q : Q} {p : Prog I A}
    (h : (run program start schedule n).tasks[i]? = some ⟨q, p⟩) :
    ∃ m ≤ n, (run program start schedule m).tasks[i]? = some ⟨q, program q⟩ := by
  induction n generalizing p with
  | zero => simp [run, h0] at h
  | succ n ih =>
    rcases (moves_next _ _ _).task_submitted h with ⟨r, hr⟩ | rfl
    · obtain ⟨m, hm, hp⟩ := ih hr
      exact ⟨m, by omega, hp⟩
    · exact ⟨n + 1, Nat.le_refl _, h⟩

theorem request_of_le {m n i : Nat} {q : Q} {p : Prog I A} (hmn : m ≤ n)
    (h : (run program start schedule m).tasks[i]? = some ⟨q, p⟩) :
    ∃ rest, (run program start schedule n).tasks[i]? = some ⟨q, rest⟩ := by
  induction n, hmn using Nat.le_induction with
  | base => exact ⟨p, h⟩
  | succ n _ ih =>
    obtain ⟨rest, hrest⟩ := ih
    by_cases hi : schedule.choice n = .advance i
    · cases rest with
      | done r =>
        rw [run_succ_of_done hi hrest]
        exact ⟨_, hrest⟩
      | call c resume =>
        rw [run_succ_of_atCall hi hrest, List.getElem?_set_self (atCall_lt hrest)]
        exact ⟨_, rfl⟩
    · exact ⟨rest, (moves_next _ _ _).task_of_ne hrest hi⟩

theorem done_of_le {m n i : Nat} {q : Q} {r : Except I.Error A} (hmn : m ≤ n)
    (h : (run program start schedule m).tasks[i]? = some ⟨q, .done r⟩) :
    (run program start schedule n).tasks[i]? = some ⟨q, .done r⟩ := by
  induction n, hmn using Nat.le_induction with
  | base => exact h
  | succ n _ ih =>
    by_cases hi : schedule.choice n = .advance i
    · rw [run_succ_of_done hi ih]
      exact ih
    · exact (moves_next _ _ _).task_of_ne ih hi

structure Happens (program : Q → Prog I A) (start : Pool M Q A) (schedule : Schedule M Q)
    (i k : Nat) (event : Prog.Event I) : Prop where
  chosen : schedule.choice k = .advance i
  atCall : ∃ q resume, (run program start schedule k).AtCall i q event.call resume
  reply : event.reply =
    (M.answer event.call (schedule.env k) (run program start schedule k).state).2

theorem Happens.state {i k : Nat} {event : Prog.Event I}
    (h : Happens program start schedule i k event) :
    (run program start schedule (k + 1)).state =
      (M.answer event.call (schedule.env k) (run program start schedule k).state).1 := by
  obtain ⟨q, resume, hc⟩ := h.atCall
  rw [run_succ_of_atCall h.chosen hc]

theorem history (h0 : start.tasks = []) {n i : Nat} {q : Q} {p : Prog I A}
    (h : (run program start schedule n).tasks[i]? = some ⟨q, p⟩) :
    ∃ events : List (Nat × Prog.Event I), (program q).Follows (events.map Prod.snd) p ∧
      (events.map Prod.fst).Pairwise (· < ·) ∧
      ∀ x ∈ events, x.1 < n ∧ Happens program start schedule i x.1 x.2 := by
  induction n generalizing p with
  | zero => simp [run, h0] at h
  | succ n ih =>
    by_cases hi : schedule.choice n = .advance i
    · cases ht : (run program start schedule n).tasks[i]? with
      | none =>
        rw [run, hi, next, ht, ht] at h
        cases h
      | some task =>
        obtain ⟨r, rest⟩ := task
        cases rest with
        | done x =>
          rw [run_succ_of_done hi ht] at h
          obtain ⟨events, hf, hp, he⟩ := ih h
          exact ⟨events, hf, hp, fun x hx => ⟨by have := (he x hx).1; omega, (he x hx).2⟩⟩
        | call c resume =>
          rw [run_succ_of_atCall hi ht, List.getElem?_set_self (atCall_lt ht), Option.some.injEq,
            Task.mk.injEq] at h
          obtain ⟨rfl, rfl⟩ := h
          obtain ⟨events, hf, hp, he⟩ := ih ht
          refine ⟨events ++ [(n, ⟨c, (M.answer c (schedule.env n)
            (run program start schedule n).state).2⟩)], ?_, ?_, ?_⟩
          · rw [List.map_append]
            exact hf.snoc _
          · rw [List.map_append, List.pairwise_append]
            refine ⟨hp, List.pairwise_singleton _ _, fun a ha b hb => ?_⟩
            obtain ⟨x, hx, rfl⟩ := List.mem_map.mp ha
            simp only [List.map_cons, List.map_nil, List.mem_singleton] at hb
            exact hb ▸ (he x hx).1
          · intro x hx
            rcases List.mem_append.mp hx with hx | hx
            · exact ⟨by have := (he x hx).1; omega, (he x hx).2⟩
            · rw [List.mem_singleton.mp hx]
              exact ⟨by simp, hi, ⟨_, _, ht⟩, rfl⟩
    · rcases (moves_next _ _ _).task_submitted h with ⟨r, hr⟩ | rfl
      · have hmoves : (run program start schedule n).Moves program (schedule.choice n)
            (schedule.env n) (run program start schedule (n + 1)) := moves_next _ _ _
        obtain rfl : r = p := by
          have heq := (hmoves.task_of_ne hr hi).symm.trans h
          simpa using heq
        obtain ⟨events, hf, hp, he⟩ := ih hr
        exact ⟨events, hf, hp, fun x hx => ⟨by have := (he x hx).1; omega, (he x hx).2⟩⟩
      · exact ⟨[], .nil _, List.Pairwise.nil, by simp⟩

inductive Ran (program : Q → Prog I A) (start : Pool M Q A) (schedule : Schedule M Q) (i : Nat)
    {B : Type} : Nat → Nat → Prog I B → Prog I B → Prop
  | stay {m n : Nat} (p : Prog I B) (hmn : m ≤ n) : Ran program start schedule i m n p p
  | call {m k n : Nat} {c : I.Call} {resume : Except I.Error (I.Reply c) → Prog I B}
    {rest : Prog I B} (r : Except I.Error (I.Reply c)) (hmk : m ≤ k)
    (hh : Happens program start schedule i k ⟨c, r⟩)
    (h : Ran program start schedule i (k + 1) n (resume r) rest) :
    Ran program start schedule i m n (.call c resume) rest

namespace Ran

variable {B C : Type} {i m n : Nat} {p rest : Prog I B}

theorem le (h : Ran program start schedule i m n p rest) : m ≤ n := by
  induction h with
  | stay p hmn => exact hmn
  | call r hmk hh h ih => omega

theorem later (h : Ran program start schedule i m n p rest) {o : Nat} (hno : n ≤ o) :
    Ran program start schedule i m o p rest := by
  induction h with
  | stay p hmn => exact .stay p (Nat.le_trans hmn hno)
  | call r hmk hh h ih => exact .call r hmk hh (ih hno)

theorem earlier (h : Ran program start schedule i m n p rest) {l : Nat} (hlm : l ≤ m) :
    Ran program start schedule i l n p rest := by
  cases h with
  | stay p hmn => exact .stay p (Nat.le_trans hlm hmn)
  | call r hmk hh h => exact .call r (Nat.le_trans hlm hmk) hh h

theorem snoc {c : I.Call} {resume : Except I.Error (I.Reply c) → Prog I B}
    (h : Ran program start schedule i m n p (.call c resume)) {r : Except I.Error (I.Reply c)}
    (hh : Happens program start schedule i n ⟨c, r⟩) :
    Ran program start schedule i m (n + 1) p (resume r) := by
  generalize hq : Prog.call c resume = q at h
  induction h with
  | stay p hmn =>
    subst hq
    exact .call r hmn hh (.stay _ (Nat.le_refl _))
  | call s hmk hs h ih => exact .call s hmk hs (ih hh hq)

theorem uses {allowed : I.Call → Prop} (h : Ran program start schedule i m n p rest)
    (hp : p.Uses allowed) : rest.Uses allowed := by
  induction h with
  | stay p hmn => exact hp
  | call r hmk hh h ih => exact ih (hp.2 r)

theorem after {f : B → Prog I C} {allowed : I.Call → Prop} {c : I.Call}
    {resume : Except I.Error (I.Reply c) → Prog I C}
    (h : Ran program start schedule i m n (p.bind f) (.call c resume)) (hp : p.Uses allowed)
    (hc : ¬ allowed c) :
    ∃ k a, Ran program start schedule i m k p (.done (.ok a)) ∧
      Ran program start schedule i k n (f a) (.call c resume) := by
  induction p generalizing m with
  | done r =>
    cases r with
    | ok a => exact ⟨m, a, .stay _ (Nat.le_refl m), h⟩
    | error x => cases h
  | call d next ih =>
    cases h with
    | stay => exact absurd hp.1 hc
    | call r hmk hh h =>
      obtain ⟨k, a, hfirst, hthen⟩ := ih r h (hp.2 r)
      exact ⟨k, a, .call r hmk hh hfirst, hthen⟩

theorem finished {f : B → Prog I C} {c : C}
    (h : Ran program start schedule i m n (p.bind f) (.done (.ok c))) :
    ∃ k a, Ran program start schedule i m k p (.done (.ok a)) ∧
      Ran program start schedule i k n (f a) (.done (.ok c)) := by
  induction p generalizing m with
  | done r =>
    cases r with
    | ok a => exact ⟨m, a, .stay _ (Nat.le_refl m), h⟩
    | error x => cases h
  | call d next ih =>
    cases h with
    | call r hmk hh h =>
      obtain ⟨k, a, hfirst, hthen⟩ := ih r h
      exact ⟨k, a, .call r hmk hh hfirst, hthen⟩

theorem ended {f : B → Prog I C} {x : Except I.Error C}
    (h : Ran program start schedule i m n (p.bind f) (.done x)) :
    (∃ e, x = .error e ∧ Ran program start schedule i m n p (.done (.error e))) ∨
      ∃ k a, Ran program start schedule i m k p (.done (.ok a)) ∧
        Ran program start schedule i k n (f a) (.done x) := by
  induction p generalizing m with
  | done r =>
    cases r with
    | ok a => exact Or.inr ⟨m, a, .stay _ (Nat.le_refl m), h⟩
    | error e =>
      have hmn := h.le
      cases h
      exact Or.inl ⟨e, rfl, .stay _ hmn⟩
  | call d next ih =>
    cases h with
    | call r hmk hh h =>
      rcases ih r h with ⟨e, hx, hfirst⟩ | ⟨k, a, hfirst, hthen⟩
      · exact Or.inl ⟨e, hx, .call r hmk hh hfirst⟩
      · exact Or.inr ⟨k, a, .call r hmk hh hfirst, hthen⟩

theorem of_attempt {x : Except I.Error (Except I.Error B)}
    (h : Ran program start schedule i m n p.attempt (.done x)) :
    ∃ r, x = .ok r ∧ Ran program start schedule i m n p (.done r) := by
  induction p generalizing m with
  | done r =>
    have hmn := h.le
    cases h
    exact ⟨r, rfl, .stay _ hmn⟩
  | call d next ih =>
    cases h with
    | call r hmk hh h =>
      obtain ⟨r', hx, hr⟩ := ih r h
      exact ⟨r', hx, .call r hmk hh hr⟩

theorem of_map {f : B → C} {c : I.Call} {resume : Except I.Error (I.Reply c) → Prog I C}
    (h : Ran program start schedule i m n (p.bind (fun b => .done (.ok (f b)))) (.call c resume)) :
    ∃ next, Ran program start schedule i m n p (.call c next) := by
  induction p generalizing m with
  | done r => cases r <;> cases h
  | call d next ih =>
    cases h with
    | stay p hmn => exact ⟨next, .stay _ hmn⟩
    | call r hmk hh h =>
      obtain ⟨later, hl⟩ := ih r h
      exact ⟨later, .call r hmk hh hl⟩

theorem performed {c : I.Call} {a : I.Reply c}
    (h : Ran program start schedule i m n (Prog.perform c) (.done (.ok a))) :
    ∃ k, m ≤ k ∧ k < n ∧ Happens program start schedule i k ⟨c, .ok a⟩ := by
  cases h with
  | call r hmk hh h =>
    have hn := h.le
    cases h with
    | stay => exact ⟨_, hmk, hn, hh⟩

theorem of_mapError {f : I.Error → I.Error} {a : B}
    (h : Ran program start schedule i m n (p.mapError f) (.done (.ok a))) :
    Ran program start schedule i m n p (.done (.ok a)) := by
  induction p generalizing m with
  | done r =>
    cases r with
    | ok b => exact h
    | error x => cases h
  | call d next ih =>
    cases h with
    | call r hmk hh h => exact .call r hmk hh (ih r h)

end Ran

theorem ran_of_task (h0 : start.tasks = []) {n i : Nat} {q : Q} {p : Prog I A}
    (h : (run program start schedule n).tasks[i]? = some ⟨q, p⟩) :
    Ran program start schedule i 0 n (program q) p := by
  induction n generalizing p with
  | zero => simp [run, h0] at h
  | succ n ih =>
    by_cases hi : schedule.choice n = .advance i
    · cases ht : (run program start schedule n).tasks[i]? with
      | none =>
        rw [run, hi, next, ht, ht] at h
        cases h
      | some task =>
        obtain ⟨r, rest⟩ := task
        cases rest with
        | done x =>
          rw [run_succ_of_done hi ht] at h
          exact (ih h).later (Nat.le_succ n)
        | call c resume =>
          rw [run_succ_of_atCall hi ht, List.getElem?_set_self (atCall_lt ht), Option.some.injEq,
            Task.mk.injEq] at h
          obtain ⟨rfl, rfl⟩ := h
          exact (ih ht).snoc ⟨hi, ⟨_, _, ht⟩, rfl⟩
    · rcases (moves_next _ _ _).task_submitted h with ⟨r, hr⟩ | rfl
      · have hmoves : (run program start schedule n).Moves program (schedule.choice n)
            (schedule.env n) (run program start schedule (n + 1)) := moves_next _ _ _
        obtain rfl : r = p := by
          have heq := (hmoves.task_of_ne hr hi).symm.trans h
          simpa using heq
        exact (ih hr).later (Nat.le_succ n)
      · exact .stay _ (Nat.zero_le _)

theorem ran_between {m n i : Nat} {q q' : Q} {p rest : Prog I A} (hmn : m ≤ n)
    (hm : (run program start schedule m).tasks[i]? = some ⟨q, p⟩)
    (hn : (run program start schedule n).tasks[i]? = some ⟨q', rest⟩) :
    Ran program start schedule i m n p rest := by
  induction n, hmn using Nat.le_induction generalizing q' rest with
  | base =>
    obtain ⟨-, rfl⟩ : q = q' ∧ p = rest := by simpa using hm.symm.trans hn
    exact .stay _ (Nat.le_refl m)
  | succ n hmn ih =>
    obtain ⟨now, hnow⟩ := request_of_le hmn hm
    by_cases hi : schedule.choice n = .advance i
    · cases now with
      | done x =>
        rw [run_succ_of_done hi hnow] at hn
        exact (ih hn).later (Nat.le_succ n)
      | call c resume =>
        rw [run_succ_of_atCall hi hnow, List.getElem?_set_self (atCall_lt hnow), Option.some.injEq,
          Task.mk.injEq] at hn
        obtain ⟨-, rfl⟩ := hn
        exact (ih hnow).snoc ⟨hi, ⟨_, _, hnow⟩, rfl⟩
    · have hmoves : (run program start schedule n).Moves program (schedule.choice n)
          (schedule.env n) (run program start schedule (n + 1)) := moves_next _ _ _
      have hsame := (hmoves.task_of_ne hnow hi).symm.trans hn
      obtain ⟨-, rfl⟩ : q = q' ∧ now = rest := by simpa using hsame
      exact (ih hnow).later (Nat.le_succ n)

structure Respects (surrounding : M.Surrounding) (program : Q → Prog I A) (start : Pool M Q A)
    (schedule : Schedule M Q) (i m n : Nat) : Prop where
  later : ∀ k, m ≤ k → k < n → schedule.choice k ≠ .advance i →
    (∃ task, (run program start schedule k).tasks[i]? = some task ∧ task.running = true) →
    surrounding.later (run program start schedule k).state
      (run program start schedule (k + 1)).state
  admits : ∀ k, m ≤ k → k < n → schedule.choice k = .advance i →
    surrounding.admits (schedule.env k) (run program start schedule k).state

theorem outline_along {surrounding : M.Surrounding}
    {check : I.Call → M.Env → M.State → Prog I A → Prop} {post : Except I.Error A → M.State → Prop}
    (refl : ∀ s, surrounding.later s s)
    (trans : ∀ {a b c}, surrounding.later a b → surrounding.later b c → surrounding.later a c)
    {m n i : Nat} {q : Q} {p : Prog I A} (hmn : m ≤ n)
    (stable : ∀ r k, m ≤ k → k < n → post r (run program start schedule k).state →
      post r (run program start schedule (k + 1)).state)
    (hr : Respects surrounding program start schedule i m n)
    (ht : (run program start schedule m).tasks[i]? = some ⟨q, p⟩)
    (ho : Outline surrounding check post p (run program start schedule m).state) :
    ∃ rest, (run program start schedule n).tasks[i]? = some ⟨q, rest⟩ ∧
      Outline surrounding check post rest (run program start schedule n).state := by
  induction n, hmn using Nat.le_induction with
  | base => exact ⟨p, ht, ho⟩
  | succ n hmn ih =>
    obtain ⟨rest, hrest, hout⟩ := ih (fun r k hk hn => stable r k hk (by omega))
      ⟨fun k hk hn => hr.later k hk (by omega), fun k hk hn => hr.admits k hk (by omega)⟩
    by_cases hi : schedule.choice n = .advance i
    · cases rest with
      | done r =>
        rw [run_succ_of_done hi hrest]
        exact ⟨_, hrest, hout⟩
      | call c resume =>
        rw [run_succ_of_atCall hi hrest]
        refine ⟨_, ?_, (hout _ (refl _) _ (hr.admits n hmn (by omega) hi)).2⟩
        rw [List.getElem?_set_self (atCall_lt hrest)]
    · refine ⟨rest, (moves_next _ _ _).task_of_ne hrest hi, ?_⟩
      cases rest with
      | done r => exact stable r n hmn (by omega) hout
      | call c resume =>
        have hl := hr.later n hmn (by omega) hi ⟨_, hrest, rfl⟩
        exact fun t ht e he => hout t (trans hl ht) e he

theorem check_of_atCall {surrounding : M.Surrounding}
    {check : I.Call → M.Env → M.State → Prog I A → Prop} {post : Except I.Error A → M.State → Prop}
    (refl : ∀ s, surrounding.later s s) {c : I.Call}
    {resume : Except I.Error (I.Reply c) → Prog I A} {s : M.State} {e : M.Env}
    (h : Outline surrounding check post (.call c resume) s) (he : surrounding.admits e s) :
    check c e s (resume (M.answer c e s).2) := (h s (refl s) e he).1

def Within (allowed : Q → I.Call → Prop) (pool : Pool M Q A) : Prop :=
  ∀ task ∈ pool.tasks, task.rest.Uses (allowed task.request)

theorem Within.next {allowed : Q → I.Call → Prop} {pool next : Pool M Q A} {choice : Choice Q}
    {e : M.Env} (hp : ∀ q, (program q).Uses (allowed q)) (h : pool.Within allowed)
    (hm : pool.Moves program choice e next) : next.Within allowed := by
  intro task ht
  cases hm with
  | submit q hq =>
    rcases List.mem_append.mp ht with ht | ht
    · exact h task ht
    · rw [List.mem_singleton.mp ht]
      exact hp q
  | advance j q c resume hj hc =>
    rcases List.mem_or_eq_of_mem_set ht with ht | rfl
    · exact h task ht
    · exact (h _ (List.mem_of_getElem? hc)).2 _
  | stay => exact h task ht

theorem within_run {allowed : Q → I.Call → Prop} (hp : ∀ q, (program q).Uses (allowed q))
    (h : start.Within allowed) (n : Nat) : (run program start schedule n).Within allowed :=
  run_induction (fun _ pool => pool.Within allowed) h
    (fun _ _ _ ih hm => ih.next hp hm) n

theorem Within.atCall {allowed : Q → I.Call → Prop} {pool : Pool M Q A} {i : Nat} {q : Q}
    {c : I.Call} {resume : Except I.Error (I.Reply c) → Prog I A} (h : pool.Within allowed)
    (hc : pool.AtCall i q c resume) : allowed q c := (h _ (List.mem_of_getElem? hc)).1

theorem run_related (related : M.State → M.State → Prop) (refl : ∀ s, related s s)
    (trans : ∀ {a b c}, related a b → related b c → related a c)
    (hc : ∀ c e s, related s (M.answer c e s).1) {m n : Nat} (hmn : m ≤ n) :
    related (run program start schedule m).state (run program start schedule n).state := by
  induction n, hmn using Nat.le_induction with
  | base => exact refl _
  | succ n _ ih =>
    refine trans ih ?_
    have hm : (run program start schedule n).Moves program (schedule.choice n) (schedule.env n)
        (run program start schedule (n + 1)) := moves_next _ _ _
    generalize run program start schedule n = a, run program start schedule (n + 1) = b at hm
    cases hm with
    | submit q h => exact refl _
    | advance i q c resume h hc' => exact hc c _ _
    | stay => exact refl _

theorem invariant_of_run {allowed : Q → I.Call → Prop} (invariant : M.State → Prop)
    (hp : ∀ q, (program q).Uses (allowed q)) (h : start.Within allowed)
    (h0 : invariant start.state)
    (hs : ∀ q c e s, allowed q c → invariant s → invariant (M.answer c e s).1) (n : Nat) :
    invariant (run program start schedule n).state := by
  refine (run_induction (fun _ pool => pool.Within allowed ∧ invariant pool.state)
    ⟨h, h0⟩ (fun k pool next ih hm => ⟨ih.1.next hp hm, ?_⟩) n).2
  cases hm with
  | submit q hq => exact ih.2
  | advance j q c resume hj hc => exact hs q c _ _ (ih.1.atCall hc) ih.2
  | stay => exact ih.2

end Pool

end Programs
