import Mathlib.Logic.Relation
import Mathlib.Tactic.Common

namespace Programs

universe u

structure Interface where
  Call : Type u
  Reply : Call → Type
  Error : Type

inductive Prog (I : Interface.{u}) (A : Type) : Type u where
  | done (result : Except I.Error A)
  | call (c : I.Call) (resume : Except I.Error (I.Reply c) → Prog I A)

variable {I : Interface.{u}} {A B : Type}

namespace Prog

def bind (p : Prog I A) (f : A → Prog I B) : Prog I B :=
  match p with
  | .done (.ok a) => f a
  | .done (.error x) => .done (.error x)
  | .call c resume => .call c (fun r => (resume r).bind f)

instance : Monad (Prog I) where
  pure := fun a => .done (.ok a)
  bind := Prog.bind

def perform (c : I.Call) : Prog I (I.Reply c) := .call c .done

def fail (x : I.Error) : Prog I A := .done (.error x)

def attempt : Prog I A → Prog I (Except I.Error A)
  | .done r => .done (.ok r)
  | .call c resume => .call c (fun r => (resume r).attempt)

def mapError (f : I.Error → I.Error) : Prog I A → Prog I A
  | .done r => .done (r.mapError f)
  | .call c resume => .call c (fun r => (resume r).mapError f)

@[simp] theorem pure_eq (a : A) : (Pure.pure a : Prog I A) = .done (.ok a) := rfl

@[simp] theorem bind_eq (p : Prog I A) (f : A → Prog I B) : p >>= f = p.bind f := rfl

@[simp] theorem map_eq (f : A → B) (p : Prog I A) :
    f <$> p = p.bind (fun a => .done (.ok (f a))) := rfl

@[simp] theorem done_ok_bind (a : A) (f : A → Prog I B) :
    (Prog.done (.ok a) : Prog I A).bind f = f a := rfl

@[simp] theorem done_error_bind (x : I.Error) (f : A → Prog I B) :
    (Prog.done (.error x) : Prog I A).bind f = .done (.error x) := rfl

@[simp] theorem fail_bind (x : I.Error) (f : A → Prog I B) :
    (Prog.fail x : Prog I A).bind f = .fail x := rfl

@[simp] theorem call_bind (c : I.Call) (resume : Except I.Error (I.Reply c) → Prog I A)
    (f : A → Prog I B) : (Prog.call c resume).bind f = .call c (fun r => (resume r).bind f) := rfl

theorem bind_assoc {C : Type} (p : Prog I A) (f : A → Prog I B) (g : B → Prog I C) :
    (p.bind f).bind g = p.bind (fun a => (f a).bind g) := by
  induction p with
  | done r => cases r <;> rfl
  | call c resume ih =>
    simp only [call_bind]
    congr 1
    funext r
    exact ih r

def Uses (allowed : I.Call → Prop) : Prog I A → Prop
  | .done _ => True
  | .call c resume => allowed c ∧ ∀ r, (resume r).Uses allowed

variable {allowed : I.Call → Prop}

@[simp] theorem uses_done (r : Except I.Error A) : (Prog.done r : Prog I A).Uses allowed := trivial

@[simp] theorem uses_fail (x : I.Error) : (Prog.fail x : Prog I A).Uses allowed := trivial

theorem Uses.bind {p : Prog I A} {f : A → Prog I B} (hp : p.Uses allowed)
    (hf : ∀ a, (f a).Uses allowed) : (p.bind f).Uses allowed := by
  induction p with
  | done r =>
    cases r with
    | ok a => exact hf a
    | error x => trivial
  | call c resume ih => exact ⟨hp.1, fun r => ih r (hp.2 r)⟩

theorem uses_perform {c : I.Call} (h : allowed c) : (perform c).Uses allowed :=
  ⟨h, fun _ => trivial⟩

theorem uses_any (p : Prog I A) : p.Uses (fun _ => True) := by
  induction p with
  | done r => trivial
  | call c resume ih => exact ⟨trivial, ih⟩

theorem Uses.attempt {p : Prog I A} (hp : p.Uses allowed) : p.attempt.Uses allowed := by
  induction p with
  | done r => trivial
  | call c resume ih => exact ⟨hp.1, fun r => ih r (hp.2 r)⟩

theorem Uses.mapError {p : Prog I A} (f : I.Error → I.Error) (hp : p.Uses allowed) :
    (p.mapError f).Uses allowed := by
  induction p with
  | done r => trivial
  | call c resume ih => exact ⟨hp.1, fun r => ih r (hp.2 r)⟩

theorem Uses.mono {other : I.Call → Prop} {p : Prog I A} (hp : p.Uses allowed)
    (h : ∀ c, allowed c → other c) : p.Uses other := by
  induction p with
  | done r => trivial
  | call c resume ih => exact ⟨h c hp.1, fun r => ih r (hp.2 r)⟩

def Yields (returned : A → Prop) : Prog I A → Prop
  | .done (.ok a) => returned a
  | .done (.error _) => True
  | .call _ resume => ∀ r, (resume r).Yields returned

theorem yields_any (p : Prog I A) : p.Yields (fun _ => True) := by
  induction p with
  | done r => cases r <;> trivial
  | call c resume ih => exact ih

theorem Yields.bind {returned : A → Prop} {other : B → Prop} {p : Prog I A} {f : A → Prog I B}
    (hy : p.Yields returned) (hf : ∀ a, returned a → (f a).Yields other) :
    (p.bind f).Yields other := by
  induction p with
  | done r =>
    cases r with
    | ok a => exact hf a hy
    | error x => trivial
  | call c resume ih => exact fun r => ih r (hy r)

theorem Uses.bind_yields {returned : A → Prop} {p : Prog I A} {f : A → Prog I B}
    (hp : p.Uses allowed) (hy : p.Yields returned) (hf : ∀ a, returned a → (f a).Uses allowed) :
    (p.bind f).Uses allowed := by
  induction p with
  | done r =>
    cases r with
    | ok a => exact hf a hy
    | error x => trivial
  | call c resume ih => exact ⟨hp.1, fun r => ih r (hp.2 r) (hy r)⟩

def Direct (allowed : I.Call → Prop) : Prog I A → Prop
  | .done _ => True
  | .call c resume => allowed c ∧ (∀ x, resume (.error x) = .done (.error x)) ∧
      ∀ r, (resume (.ok r)).Direct allowed

@[simp] theorem direct_done (r : Except I.Error A) : (Prog.done r : Prog I A).Direct allowed :=
  trivial

theorem direct_perform {c : I.Call} (h : allowed c) : (perform c).Direct allowed :=
  ⟨h, fun _ => rfl, fun _ => trivial⟩

theorem Direct.bind {p : Prog I A} {f : A → Prog I B} (hp : p.Direct allowed)
    (hf : ∀ a, (f a).Direct allowed) : (p.bind f).Direct allowed := by
  induction p with
  | done r =>
    cases r with
    | ok a => exact hf a
    | error x => trivial
  | call c resume ih =>
    refine ⟨hp.1, fun x => ?_, fun r => ih _ (hp.2.2 r)⟩
    change (resume (.error x)).bind f = .done (.error x)
    rw [hp.2.1 x]
    rfl

theorem Direct.uses {p : Prog I A} (hp : p.Direct allowed) : p.Uses allowed := by
  induction p with
  | done r => trivial
  | call c resume ih =>
    refine ⟨hp.1, fun r => ?_⟩
    cases r with
    | ok r => exact ih _ (hp.2.2 r)
    | error x =>
      rw [hp.2.1 x]
      trivial

structure Event (I : Interface.{u}) where
  call : I.Call
  reply : Except I.Error (I.Reply call)

inductive Follows : Prog I A → List (Event I) → Prog I A → Prop
  | nil (p : Prog I A) : Follows p [] p
  | cons {c : I.Call} {resume : Except I.Error (I.Reply c) → Prog I A} {rest : Prog I A}
    {events : List (Event I)} (r : Except I.Error (I.Reply c))
    (h : Follows (resume r) events rest) : Follows (.call c resume) (⟨c, r⟩ :: events) rest

theorem Follows.snoc {p : Prog I A} {events : List (Event I)} {c : I.Call}
    {resume : Except I.Error (I.Reply c) → Prog I A} (h : Follows p events (.call c resume))
    (r : Except I.Error (I.Reply c)) : Follows p (events ++ [⟨c, r⟩]) (resume r) := by
  generalize hq : Prog.call c resume = q at h
  induction h with
  | nil p =>
    subst hq
    exact .cons r (.nil _)
  | cons s _ ih => exact .cons s (ih hq)

theorem Follows.call {c : I.Call} {resume : Except I.Error (I.Reply c) → Prog I A}
    {rest : Prog I A} {events : List (Event I)} (h : Follows (.call c resume) events rest) :
    rest = .call c resume ∧ events = [] ∨
      ∃ r later, events = ⟨c, r⟩ :: later ∧ Follows (resume r) later rest := by
  cases h with
  | nil => exact Or.inl ⟨rfl, rfl⟩
  | cons r h => exact Or.inr ⟨r, _, rfl, h⟩

theorem Follows.done {x : Except I.Error A} {rest : Prog I A} {events : List (Event I)}
    (h : Follows (.done x) events rest) : rest = .done x ∧ events = [] := by
  cases h
  exact ⟨rfl, rfl⟩

theorem Uses.follows {p rest : Prog I A} {events : List (Event I)} (hp : p.Uses allowed)
    (h : Follows p events rest) : rest.Uses allowed ∧ ∀ e ∈ events, allowed e.call := by
  induction h with
  | nil p => exact ⟨hp, by simp⟩
  | cons r _ ih =>
    obtain ⟨hrest, hevents⟩ := ih (hp.2 r)
    refine ⟨hrest, fun e he => ?_⟩
    rcases List.mem_cons.mp he with rfl | he
    · exact hp.1
    · exact hevents e he

theorem Follows.after {p : Prog I A} {f : A → Prog I B} {c : I.Call}
    {resume : Except I.Error (I.Reply c) → Prog I B} {events : List (Event I)}
    (h : Follows (p.bind f) events (.call c resume)) (hp : p.Uses allowed) (hc : ¬ allowed c) :
    ∃ a early late, events = early ++ late ∧ Follows p early (.done (.ok a)) ∧
      Follows (f a) late (.call c resume) := by
  induction p generalizing events with
  | done r =>
    cases r with
    | ok a => exact ⟨a, [], events, rfl, .nil _, h⟩
    | error x => cases h.done.1
  | call d next ih =>
    rcases h.call with ⟨hd, -⟩ | ⟨r, later, rfl, hl⟩
    · cases hd
      exact absurd hp.1 hc
    · obtain ⟨a, early, late, rfl, he, hf⟩ := ih r hl (hp.2 r)
      exact ⟨a, ⟨d, r⟩ :: early, late, rfl, .cons r he, hf⟩

theorem Follows.finished {p : Prog I A} {f : A → Prog I B} {b : B} {events : List (Event I)}
    (h : Follows (p.bind f) events (.done (.ok b))) :
    ∃ a early late, events = early ++ late ∧ Follows p early (.done (.ok a)) ∧
      Follows (f a) late (.done (.ok b)) := by
  induction p generalizing events with
  | done r =>
    cases r with
    | ok a => exact ⟨a, [], events, rfl, .nil _, h⟩
    | error x => cases h.done.1
  | call d next ih =>
    rcases h.call with ⟨hd, -⟩ | ⟨r, later, rfl, hl⟩
    · cases hd
    · obtain ⟨a, early, late, rfl, he, hf⟩ := ih r hl
      exact ⟨a, ⟨d, r⟩ :: early, late, rfl, .cons r he, hf⟩

theorem Follows.of_map {p : Prog I A} {g : A → B} {c : I.Call}
    {resume : Except I.Error (I.Reply c) → Prog I B} {events : List (Event I)}
    (h : Follows (p.bind (fun a => .done (.ok (g a)))) events (.call c resume)) :
    ∃ next, Follows p events (.call c next) := by
  induction p generalizing events with
  | done r => cases r <;> cases h.done.1
  | call d next ih =>
    rcases h.call with ⟨hd, rfl⟩ | ⟨r, later, rfl, hl⟩
    · cases hd
      exact ⟨next, .nil _⟩
    · obtain ⟨after, ha⟩ := ih r hl
      exact ⟨after, .cons r ha⟩

theorem Follows.performed {c : I.Call} {a : I.Reply c} {events : List (Event I)}
    (h : Follows (perform c) events (.done (.ok a))) : events = [⟨c, .ok a⟩] := by
  rcases h.call with ⟨hd, -⟩ | ⟨r, later, rfl, hl⟩
  · cases hd
  · obtain ⟨hr, rfl⟩ := hl.done
    cases hr
    rfl

end Prog

structure Machine (I : Interface.{u}) where
  State : Type
  Env : Type
  answer : (c : I.Call) → Env → State → State × Except I.Error (I.Reply c)

variable {M : Machine I}

namespace Machine

variable (M)

def exec : Prog I A → (Nat → M.Env) → M.State → M.State × Except I.Error A
  | .done r, _, s => (s, r)
  | .call c resume, es, s =>
    exec (resume (M.answer c (es 0) s).2) (fun n => es (n + 1)) (M.answer c (es 0) s).1

structure Surrounding where
  later : M.State → M.State → Prop
  admits : M.Env → M.State → Prop

end Machine

def Outline (surrounding : M.Surrounding) (check : I.Call → M.Env → M.State → Prog I A → Prop)
    (post : Except I.Error A → M.State → Prop) : Prog I A → M.State → Prop
  | .done r, s => post r s
  | .call c resume, s => ∀ t, surrounding.later s t → ∀ e, surrounding.admits e t →
      check c e t (resume (M.answer c e t).2) ∧
        Outline surrounding check post (resume (M.answer c e t).2) (M.answer c e t).1

def onOk {E S : Type} (next : A → S → Prop) (post : Except E B → S → Prop) : Except E A → S → Prop
  | .ok a, s => next a s
  | .error x, s => post (.error x) s

@[simp] theorem onOk_ok {E S : Type} {next : A → S → Prop} {post : Except E B → S → Prop} {a : A}
    {s : S} : onOk next post (.ok a) s ↔ next a s := Iff.rfl

@[simp] theorem onOk_error {E S : Type} {next : A → S → Prop} {post : Except E B → S → Prop} {x : E}
    {s : S} : onOk next post (.error x) s ↔ post (.error x) s := Iff.rfl

namespace Outline

variable {surrounding : M.Surrounding} {check check' : I.Call → M.Env → M.State → Prog I A → Prop}
  {post post' : Except I.Error A → M.State → Prop} {p : Prog I A} {s t : M.State}

@[simp] theorem done_iff {r : Except I.Error A} :
    Outline surrounding check post (.done r) s ↔ post r s := Iff.rfl

@[simp] theorem fail_iff {x : I.Error} :
    Outline surrounding check post (.fail x) s ↔ post (.error x) s := Iff.rfl

theorem mono (h : Outline surrounding check post p s)
    (hc : ∀ c e t rest, surrounding.admits e t → check c e t rest → check' c e t rest)
    (hp : ∀ r t, post r t → post' r t) : Outline surrounding check' post' p s := by
  induction p generalizing s with
  | done r => exact hp r s h
  | call c resume ih =>
    intro t hl e ha
    obtain ⟨hcheck, hrest⟩ := h t hl e ha
    exact ⟨hc _ _ _ _ ha hcheck, ih _ hrest⟩

theorem bind {f : A → Prog I B} {check : I.Call → M.Env → M.State → Prog I B → Prop}
    {post : Except I.Error B → M.State → Prop}
    (h : Outline surrounding (fun c e t rest => check c e t (rest.bind f))
      (onOk (fun a t => Outline surrounding check post (f a) t) post) p s) :
    Outline surrounding check post (p.bind f) s := by
  induction p generalizing s with
  | done r =>
    cases r with
    | ok a => exact h
    | error x => exact h
  | call c resume ih =>
    intro t hl e ha
    obtain ⟨hcheck, hrest⟩ := h t hl e ha
    exact ⟨hcheck, ih _ hrest⟩

theorem attempt {check : I.Call → M.Env → M.State → Prog I (Except I.Error A) → Prop}
    {post : Except I.Error (Except I.Error A) → M.State → Prop}
    (h : Outline surrounding (fun c e t rest => check c e t rest.attempt)
      (fun r t => post (.ok r) t) p s) :
    Outline surrounding check post p.attempt s := by
  induction p generalizing s with
  | done r => exact h
  | call c resume ih =>
    intro t hl e ha
    obtain ⟨hcheck, hrest⟩ := h t hl e ha
    exact ⟨hcheck, ih _ hrest⟩

theorem later (ht : ∀ {a b c}, surrounding.later a b → surrounding.later b c →
      surrounding.later a c)
    (hp : ∀ {r a b}, post r a → surrounding.later a b → post r b)
    (h : Outline surrounding check post p s) (hl : surrounding.later s t) :
    Outline surrounding check post p t := by
  cases p with
  | done r => exact hp h hl
  | call c resume => exact fun u hu e ha => h u (ht hl hu) e ha

theorem of_invariant {allowed : I.Call → Prop} (invariant : M.State → Prop)
    (hl : ∀ a b, surrounding.later a b → invariant a → invariant b)
    (hc : ∀ c e t, allowed c → surrounding.admits e t → invariant t →
      invariant (M.answer c e t).1)
    (hp : p.Uses allowed) (h : invariant s) :
    Outline surrounding (fun c _ t _ => allowed c ∧ invariant t) (fun _ t => invariant t) p s := by
  induction p generalizing s with
  | done r => exact h
  | call c resume ih =>
    intro t hst e he
    have ht := hl s t hst h
    exact ⟨⟨hp.1, ht⟩, ih _ (hp.2 _) (hc c e t hp.1 he ht)⟩

theorem of_uses {allowed : I.Call → Prop} (h : p.Uses allowed) :
    Outline surrounding (fun c _ _ _ => allowed c) (fun _ _ => True) p s := by
  induction p generalizing s with
  | done r => trivial
  | call c resume ih => exact fun t _ e _ => ⟨h.1, ih _ (h.2 _)⟩

end Outline

def Machine.wp (M : Machine I) (admits : M.Env → Prop) (post : Except I.Error A → M.State → Prop)
    (p : Prog I A) (s : M.State) : Prop :=
  Outline ⟨Eq, fun e _ => admits e⟩ (fun _ _ _ _ => True) post p s

namespace Machine

variable {admits : M.Env → Prop} {post post' : Except I.Error A → M.State → Prop} {s : M.State}

@[simp] theorem wp_done {r : Except I.Error A} : M.wp admits post (.done r) s ↔ post r s := Iff.rfl

@[simp] theorem wp_fail {x : I.Error} : M.wp admits post (.fail x) s ↔ post (.error x) s := Iff.rfl

theorem wp_call {c : I.Call} {resume : Except I.Error (I.Reply c) → Prog I A} :
    M.wp admits post (.call c resume) s ↔
      ∀ e, admits e → M.wp admits post (resume (M.answer c e s).2) (M.answer c e s).1 := by
  constructor
  · exact fun h e ha => (h s rfl e ha).2
  · rintro h t rfl e ha
    exact ⟨trivial, h e ha⟩

theorem wp_mono {p : Prog I A} (h : M.wp admits post p s) (hp : ∀ r t, post r t → post' r t) :
    M.wp admits post' p s := Outline.mono h (fun _ _ _ _ _ _ => trivial) hp

theorem wp_bind {p : Prog I A} {f : A → Prog I B} {post : Except I.Error B → M.State → Prop} :
    M.wp admits post (p.bind f) s ↔
      M.wp admits (onOk (fun a t => M.wp admits post (f a) t) post) p s := by
  refine ⟨fun h => ?_, fun h => Outline.bind h⟩
  induction p generalizing s with
  | done r =>
    cases r with
    | ok a => exact h
    | error x => exact h
  | call c resume ih =>
    rw [Prog.call_bind, wp_call] at h
    exact wp_call.mpr (fun e ha => ih _ (h e ha))

theorem wp_seq {p : Prog I A} {f : A → Prog I B} {invariant : M.State → Prop}
    (hp : M.wp admits (fun _ t => invariant t) p s)
    (hf : ∀ a t, invariant t → M.wp admits (fun _ t => invariant t) (f a) t) :
    M.wp admits (fun _ t => invariant t) (p.bind f) s := by
  refine wp_bind.mpr (wp_mono hp (fun r t ht => ?_))
  cases r with
  | ok a => exact hf a t ht
  | error x => exact ht

theorem wp_keeping {allowed : I.Call → Prop} {p : Prog I A} (invariant : M.State → Prop)
    (hc : ∀ c e t, allowed c → admits e → invariant t → invariant (M.answer c e t).1)
    (hp : p.Uses allowed) (hs : invariant s) (h : M.wp admits post p s) :
    M.wp admits (fun r t => post r t ∧ invariant t) p s := by
  induction p generalizing s with
  | done r => exact ⟨h, hs⟩
  | call c resume ih =>
    exact wp_call.mpr (fun e he => ih _ (hp.2 _) (hc c e s hp.1 he hs) (wp_call.mp h e he))

theorem wp_attempt {p : Prog I A} {post : Except I.Error (Except I.Error A) → M.State → Prop}
    (h : M.wp admits (fun r t => post (.ok r) t) p s) : M.wp admits post p.attempt s :=
  Outline.attempt h

theorem wp_mapError {p : Prog I A} {f : I.Error → I.Error}
    (h : M.wp admits (fun r t => post (r.mapError f) t) p s) :
    M.wp admits post (p.mapError f) s := by
  induction p generalizing s with
  | done r => exact h
  | call c resume ih => exact wp_call.mpr (fun e he => ih _ (wp_call.mp h e he))

theorem wp_of_forall {p : Prog I A} (h : ∀ r t, post r t) : M.wp admits post p s := by
  induction p generalizing s with
  | done r => exact h r s
  | call c resume ih => exact wp_call.mpr (fun _ _ => ih _)

theorem wp_direct {allowed : I.Call → Prop} {p : Prog I A} (hp : p.Direct allowed) {t : M.State}
    {e₀ : M.Env} (hc : ∀ c e, allowed c → admits e → (M.answer c e s).1 = s ∧
      (M.answer c e₀ t).1 = t ∧
        ((M.answer c e s).2 = (M.answer c e₀ t).2 ∨ ∃ x, (M.answer c e s).2 = .error x)) :
    M.wp admits (fun r v => v = s ∧ (r = (M.exec p (fun _ => e₀) t).2 ∨ ∃ x, r = .error x)) p
      s := by
  induction p with
  | done r => exact ⟨rfl, Or.inl rfl⟩
  | call c resume ih =>
    refine wp_call.mpr (fun e he => ?_)
    obtain ⟨hs, ht, heq | ⟨x, hx⟩⟩ := hc c e hp.1 he
    · rw [hs, exec, ht, ← heq]
      cases hr : (M.answer c e s).2 with
      | ok r => exact ih _ (hp.2.2 r)
      | error x =>
        rw [hp.2.1 x]
        exact ⟨rfl, Or.inl rfl⟩
    · rw [hs, hx, hp.2.1 x]
      exact ⟨rfl, Or.inr ⟨x, rfl⟩⟩

theorem exec_alike (related : M.State → M.State → Prop) {allowed : I.Call → Prop} {t : M.State}
    {p : Prog I A} (hp : p.Uses allowed)
    (hc : ∀ c e s t, allowed c → related s t → (M.answer c e s).2 = (M.answer c e t).2 ∧
      related (M.answer c e s).1 (M.answer c e t).1) (h : related s t) (es : Nat → M.Env) :
    (M.exec p es s).2 = (M.exec p es t).2 ∧ related (M.exec p es s).1 (M.exec p es t).1 := by
  induction p generalizing s t es with
  | done r => exact ⟨rfl, h⟩
  | call c resume ih =>
    obtain ⟨hr, hs⟩ := hc c (es 0) s t hp.1 h
    simp only [exec]
    rw [hr]
    exact ih _ (hp.2 _) hs _

theorem exec_related (related : M.State → M.State → Prop) {allowed : I.Call → Prop} {t : M.State}
    {p : Prog I A} (hp : p.Uses allowed)
    (hc : ∀ c e s t, allowed c → related s t → (M.answer c e s).2 = (M.answer c e t).2 ∧
      related (M.answer c e s).1 (M.answer c e t).1) (h : related s t) (es : Nat → M.Env) :
    (M.exec p es s).2 = (M.exec p es t).2 := (exec_alike related hp hc h es).1

theorem exec_of_wp {p : Prog I A} {es : Nat → M.Env} (h : M.wp admits post p s)
    (he : ∀ n, admits (es n)) : post (M.exec p es s).2 (M.exec p es s).1 := by
  induction p generalizing s es with
  | done r => exact h
  | call c resume ih => exact ih _ (wp_call.mp h (es 0) (he 0)) (fun n => he (n + 1))

theorem exec_of_wp_any {p : Prog I A} (es : Nat → M.Env) (h : M.wp (fun _ => True) post p s) :
    post (M.exec p es s).2 (M.exec p es s).1 := exec_of_wp h (fun _ => trivial)

theorem exec_of_wp_drawn {p : Prog I A} (es : Nat → M.Env)
    (h : M.wp (fun e => ∃ n, e = es n) post p s) :
    post (M.exec p es s).2 (M.exec p es s).1 := exec_of_wp h (fun n => ⟨n, rfl⟩)

theorem exec_map (p : Prog I A) (g : A → B) (es : Nat → M.Env) (s : M.State) :
    M.exec (p.bind (fun a => .done (.ok (g a)))) es s =
      ((M.exec p es s).1, (M.exec p es s).2.map g) := by
  induction p generalizing es s with
  | done r => cases r <;> rfl
  | call c resume ih => exact ih _ _ _

theorem exec_bind (p : Prog I A) (f : A → Prog I B) (es : Nat → M.Env) (s : M.State) : ∃ count,
    M.exec (p.bind f) es s =
      match (M.exec p es s).2 with
      | .ok a => M.exec (f a) (fun n => es (n + count)) (M.exec p es s).1
      | .error x => ((M.exec p es s).1, .error x) := by
  induction p generalizing es s with
  | done r => cases r <;> exact ⟨0, rfl⟩
  | call c resume ih =>
    obtain ⟨count, h⟩ := ih (M.answer c (es 0) s).2 (fun n => es (n + 1)) (M.answer c (es 0) s).1
    exact ⟨count + 1, h⟩

end Machine

end Programs
