import ProjectCache.Lib.Program

namespace Programs

universe u

structure Addition : Type (u + 1) where
  Call : Type u
  Reply : Call → Type

variable {I : Interface.{u}} {J : Addition.{u}} {A B : Type}

@[reducible] def Interface.plus (I : Interface.{u}) (J : Addition.{u}) : Interface.{u} where
  Call := I.Call ⊕ J.Call
  Reply := Sum.elim I.Reply J.Reply
  Error := I.Error

namespace Prog

def lift (J : Addition.{u}) : Prog I A → Prog (I.plus J) A
  | .done r => .done r
  | .call c resume => .call (Sum.inl c) (fun r => (resume r).lift J)

theorem lift_bind (p : Prog I A) (f : A → Prog I B) :
    (p.bind f).lift J = (p.lift J).bind (fun a => (f a).lift J) := by
  induction p with
  | done r => cases r <;> rfl
  | call c resume ih =>
    simp only [call_bind, lift]
    congr 1
    funext r
    exact ih r

def added {J : Addition.{u}} (c : J.Call) : Prog (I.plus J) (J.Reply c) :=
  perform (I := I.plus J) (Sum.inr c)

end Prog

@[reducible] def Machine.plus (M : Machine I) (J : Addition.{u}) (F : Type)
    (extra : (c : J.Call) → M.Env → F → M.State → M.State × Except I.Error (J.Reply c)) :
    Machine (I.plus J) where
  State := M.State
  Env := M.Env × F
  answer := fun c e s =>
    match c with
    | .inl c => M.answer c e.1 s
    | .inr c => extra c e.1 e.2 s

variable {M : Machine I} {F : Type}
  {extra : (c : J.Call) → M.Env → F → M.State → M.State × Except I.Error (J.Reply c)}

theorem exec_lift (p : Prog I A) (es : Nat → M.Env × F) (s : M.State) :
    (M.plus J F extra).exec (p.lift J) es s = M.exec p (fun n => (es n).1) s := by
  induction p generalizing es s with
  | done r => rfl
  | call c resume ih => exact ih _ _ _

theorem exec_added {c : J.Call} (f : J.Reply c → Prog (I.plus J) A) (es : Nat → M.Env × F)
    (s : M.State) : (M.plus J F extra).exec ((Prog.added c).bind f) es s =
      match (extra c (es 0).1 (es 0).2 s).2 with
      | .ok r => (M.plus J F extra).exec (f r) (fun n => es (n + 1)) (extra c (es 0).1 (es 0).2 s).1
      | .error x => ((extra c (es 0).1 (es 0).2 s).1, .error x) := by
  change (M.plus J F extra).exec (Prog.bind (.done (extra c (es 0).1 (es 0).2 s).2) f)
    (fun n => es (n + 1)) (extra c (es 0).1 (es 0).2 s).1 = _
  cases (extra c (es 0).1 (es 0).2 s).2 <;> rfl

theorem exec_lift_bind (p : Prog I A) (f : A → Prog (I.plus J) B) (es : Nat → M.Env × F)
    (s : M.State) : ∃ count, (M.plus J F extra).exec ((p.lift J).bind f) es s =
      match (M.exec p (fun n => (es n).1) s).2 with
      | .ok a => (M.plus J F extra).exec (f a) (fun n => es (n + count))
          (M.exec p (fun n => (es n).1) s).1
      | .error x => ((M.exec p (fun n => (es n).1) s).1, .error x) := by
  obtain ⟨count, h⟩ := Machine.exec_bind (M := M.plus J F extra) (p.lift J) f es s
  rw [exec_lift] at h
  refine ⟨count, h.trans ?_⟩
  cases (M.exec p (fun n => (es n).1) s).2 <;> rfl

end Programs
