import ProjectCache.Lib.Pool

namespace Programs

universe u

variable {I : Interface.{u}} {M : Machine I} {Q A B H : Type}

namespace Prog

def Keeps (step : H → Event I → H → Prop) (post : Except I.Error A → H → Prop) :
    Prog I A → H → Prop
  | .done r, hold => post r hold
  | .call c resume, hold => ∀ r, ∃ next, step hold ⟨c, r⟩ next ∧ Keeps step post (resume r) next

variable {step : H → Event I → H → Prop} {hold : H}

namespace Keeps

theorem mono {post post' : Except I.Error A → H → Prop} {p : Prog I A}
    (h : p.Keeps step post hold) (hp : ∀ r hold, post r hold → post' r hold) :
    p.Keeps step post' hold := by
  induction p generalizing hold with
  | done r => exact hp r hold h
  | call c resume ih =>
    intro r
    obtain ⟨next, hs, hk⟩ := h r
    exact ⟨next, hs, ih r hk⟩

theorem bind {p : Prog I A} {f : A → Prog I B} {post : Except I.Error B → H → Prop}
    (h : p.Keeps step (onOk (fun a hold => (f a).Keeps step post hold) post) hold) :
    (p.bind f).Keeps step post hold := by
  induction p generalizing hold with
  | done r =>
    cases r with
    | ok a => exact h
    | error x => exact h
  | call c resume ih =>
    intro r
    obtain ⟨next, hs, hk⟩ := h r
    exact ⟨next, hs, ih r hk⟩

theorem attempt {p : Prog I A} {post : Except I.Error (Except I.Error A) → H → Prop}
    (h : p.Keeps step (fun r hold => post (.ok r) hold) hold) : p.attempt.Keeps step post hold := by
  induction p generalizing hold with
  | done r => exact h
  | call c resume ih =>
    intro r
    obtain ⟨next, hs, hk⟩ := h r
    exact ⟨next, hs, ih r hk⟩

theorem mapError {p : Prog I A} {f : I.Error → I.Error} {post : Except I.Error A → H → Prop}
    (h : p.Keeps step (fun r hold => post (r.mapError f) hold) hold) :
    (p.mapError f).Keeps step post hold := by
  induction p generalizing hold with
  | done r => exact h
  | call c resume ih =>
    intro r
    obtain ⟨next, hs, hk⟩ := h r
    exact ⟨next, hs, ih r hk⟩

end Keeps

end Prog

namespace Pool

variable {program : Q → Prog I A} {start : Pool M Q A} {schedule : Schedule M Q}

def Quiet (program : Q → Prog I A) (start : Pool M Q A) (schedule : Schedule M Q) (n : Nat) :
    Prop :=
  ∀ i event, ¬ Happens program start schedule i n event

structure Kept (program : Q → Prog I A) (start : Pool M Q A) (schedule : Schedule M Q)
    (step : Q → H → Prog.Event I → H → Prop) (first : H) (invariant : Nat → Prop)
    (valid : Nat → Nat → Q → H → Prop) (last : Nat) : Prop where
  begins : invariant 0
  submitted : ∀ n i q, n < last → invariant n → (run program start schedule n).tasks[i]? = none →
    schedule.choice n = .submit q → valid (n + 1) i q first
  quiet : ∀ n, n < last → Quiet program start schedule n →
    (run program start schedule (n + 1)).state = (run program start schedule n).state →
    invariant n → invariant (n + 1) ∧ ∀ i q hold, valid n i q hold → valid (n + 1) i q hold
  advanced : ∀ n i q hold next event, n < last → invariant n →
    Happens program start schedule i n event →
    (∃ rest, (run program start schedule n).tasks[i]? = some ⟨q, rest⟩) → valid n i q hold →
    step q hold event next → invariant (n + 1) ∧ valid (n + 1) i q next ∧
      ∀ j r other, j ≠ i → (∃ rest, (run program start schedule n).tasks[j]? = some ⟨r, rest⟩) →
        valid n j r other → valid (n + 1) j r other

theorem Kept.run {step : Q → H → Prog.Event I → H → Prop} {post : Q → Except I.Error A → H → Prop}
    {first : H} {invariant : Nat → Prop} {valid : Nat → Nat → Q → H → Prop} {last : Nat}
    (h : Kept program start schedule step first invariant valid last) (h0 : start.tasks = [])
    (hp : ∀ q, (program q).Keeps (step q) (post q) first) {n : Nat} (hn : n ≤ last) :
    invariant n ∧ ∀ i q rest, (run program start schedule n).tasks[i]? = some ⟨q, rest⟩ →
      ∃ hold, rest.Keeps (step q) (post q) hold ∧ valid n i q hold := by
  induction n with
  | zero => exact ⟨h.begins, fun i q rest hi => by simp [Pool.run, h0] at hi⟩
  | succ n ih =>
    obtain ⟨hinv, htasks⟩ := ih (by omega)
    by_cases hq : Quiet program start schedule n
    · have hm : (Pool.run program start schedule n).Moves program (schedule.choice n)
          (schedule.env n) (Pool.run program start schedule (n + 1)) := moves_next _ _ _
      generalize hb : Pool.run program start schedule (n + 1) = b at hm
      cases hm with
      | advance j q c resume hj hc =>
        have hh : Happens program start schedule j n
            ⟨c, (M.answer c (schedule.env n) (Pool.run program start schedule n).state).2⟩ :=
          ⟨hj, ⟨q, resume, hc⟩, rfl⟩
        exact absurd hh (hq j _)
      | stay =>
        obtain ⟨hinv', hvalid⟩ := h.quiet n hn hq (by rw [hb]) hinv
        refine ⟨hinv', fun i q rest hi => ?_⟩
        obtain ⟨hold, hk, hv⟩ := htasks i q rest hi
        exact ⟨hold, hk, hvalid i q hold hv⟩
      | submit q hc =>
        obtain ⟨hinv', hvalid⟩ := h.quiet n hn hq (by rw [hb]) hinv
        refine ⟨hinv', fun i r rest hi => ?_⟩
        rcases Nat.lt_or_ge i (Pool.run program start schedule n).tasks.length with hlt | hge
        · rw [List.getElem?_append_left hlt] at hi
          obtain ⟨hold, hk, hv⟩ := htasks i r rest hi
          exact ⟨hold, hk, hvalid i r hold hv⟩
        · have hnone := List.getElem?_eq_none hge
          rw [List.getElem?_append_right hge] at hi
          obtain ⟨hlen, heq⟩ := List.getElem?_eq_some_iff.mp hi
          simp only [List.getElem_singleton, Task.mk.injEq] at heq
          obtain ⟨rfl, rfl⟩ := heq
          exact ⟨first, hp q, h.submitted n i q hn hinv hnone hc⟩
    · simp only [Quiet, not_forall, not_not] at hq
      obtain ⟨i, ⟨c, reply⟩, hh⟩ := hq
      obtain ⟨hi, ⟨q, resume, hc⟩, hreply⟩ := hh
      obtain ⟨hold, hk, hv⟩ := htasks i q _ hc
      obtain ⟨next, hs, hnext⟩ := hk reply
      obtain ⟨hinv', hv', hothers⟩ :=
        h.advanced n i q hold next ⟨c, reply⟩ hn hinv ⟨hi, ⟨q, resume, hc⟩, hreply⟩ ⟨_, hc⟩ hv hs
      refine ⟨hinv', fun j r rest hj => ?_⟩
      rw [run_succ_of_atCall hi hc] at hj
      by_cases hji : j = i
      · subst hji
        rw [List.getElem?_set_self (atCall_lt hc), Option.some.injEq, Task.mk.injEq] at hj
        obtain ⟨rfl, rfl⟩ := hj
        simp only at hreply
        rw [← hreply]
        exact ⟨next, hnext, hv'⟩
      · rw [List.getElem?_set_ne (Ne.symm hji)] at hj
        obtain ⟨other, hother, hvalid⟩ := htasks j r rest hj
        exact ⟨other, hother, hothers j r other hji ⟨rest, hj⟩ hvalid⟩

end Pool

end Programs
