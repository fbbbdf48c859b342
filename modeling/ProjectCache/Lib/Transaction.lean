import ProjectCache.Lib.Program

namespace Transactions

open Programs

variable {S E N A B : Type}

inductive Request (S E N : Type) : Type 1 where
  | execute {B : Type} (statement : S → Except E (B × S))
  | fresh
  | begin
  | commit

@[reducible] def Request.Reply : Request S E N → Type
  | @Request.execute _ _ _ B _ => B
  | fresh => N
  | begin | commit => Unit

@[reducible] def Interface (S E N : Type) : Programs.Interface := ⟨Request S E N, Request.Reply, E⟩

abbrev Session (S E N A : Type) := Prog (Interface S E N) A

def execute (statement : S → Except E (B × S)) : Session S E N B :=
  Prog.perform (I := Interface S E N) (.execute statement)

def fresh : Session S E N N := Prog.perform (I := Interface S E N) .fresh

def opening : Session S E N Unit := Prog.perform (I := Interface S E N) .begin

def committing : Session S E N Unit := Prog.perform (I := Interface S E N) .commit

structure Connection (S : Type) where
  committed : S
  working : Option S

structure Moment (E N : Type) where
  refusal : Option E
  fresh : N

namespace Connection

variable (c : Connection S)

def current : S := c.working.getD c.committed

def write (s : S) : Connection S :=
  match c.working with
  | none => ⟨s, none⟩
  | some _ => ⟨c.committed, some s⟩

def carryOut : (r : Request S E N) → N → Connection S × Except E r.Reply
  | .execute statement, _ =>
    match statement c.current with
    | .ok (b, s) => (c.write s, .ok b)
    | .error x => (c, .error x)
  | .fresh, name => (c, .ok name)
  | .begin, _ => (⟨c.committed, some c.current⟩, .ok ())
  | .commit, _ => (⟨c.current, none⟩, .ok ())

def answer : (r : Request S E N) → Moment E N → Connection S → Connection S × Except E r.Reply
  | .fresh, m, c => c.carryOut .fresh m.fresh
  | r, m, c =>
    match m.refusal with
    | some x => (c, .error x)
    | none => c.carryOut r m.fresh

end Connection

@[reducible] def machine (S E N : Type) : Machine (Interface S E N) where
  State := Connection S
  Env := Moment E N
  answer := Connection.answer

def transaction (body : Session S E N A) : Session S E N A := do
  opening
  let a ← body
  committing
  return a

def run (p : Session S E N A) (moments : Nat → Moment E N) (s : S) : S × Except E A :=
  let result := (machine S E N).exec p moments ⟨s, none⟩
  (result.1.committed, result.2)

def Request.Inside : Request S E N → Prop
  | .execute _ | .fresh => True
  | .begin | .commit => False

variable {admits : Moment E N → Prop} {s t : S}

theorem wp_execute {statement : S → Except E (B × S)} {c : Connection S}
    {post : Except E B → Connection S → Prop}
    (hok : ∀ b u, statement c.current = .ok (b, u) → post (.ok b) (c.write u))
    (herr : ∀ x, post (.error x) c) :
    (machine S E N).wp admits post (execute statement) c := by
  refine Machine.wp_call.mpr (fun m _ => ?_)
  simp only [Connection.answer, Connection.carryOut]
  cases m.refusal with
  | some x => exact herr x
  | none =>
    cases hr : statement c.current with
    | ok r => exact hok r.1 r.2 hr
    | error x => exact herr x

theorem wp_fresh {c : Connection S} {post : Except E N → Connection S → Prop}
    (h : ∀ name, post (.ok name) c) : (machine S E N).wp admits post fresh c :=
  Machine.wp_call.mpr (fun m _ => h m.fresh)

theorem wp_opening {c : Connection S} {post : Except E Unit → Connection S → Prop}
    (hok : post (.ok ()) ⟨c.committed, some c.current⟩) (herr : ∀ x, post (.error x) c) :
    (machine S E N).wp admits post opening c := by
  refine Machine.wp_call.mpr (fun m _ => ?_)
  simp only [Connection.answer, Connection.carryOut]
  cases m.refusal with
  | some x => exact herr x
  | none => exact hok

theorem wp_committing {c : Connection S} {post : Except E Unit → Connection S → Prop}
    (hok : post (.ok ()) ⟨c.current, none⟩) (herr : ∀ x, post (.error x) c) :
    (machine S E N).wp admits post committing c := by
  refine Machine.wp_call.mpr (fun m _ => ?_)
  simp only [Connection.answer, Connection.carryOut]
  cases m.refusal with
  | some x => exact herr x
  | none => exact hok

theorem inside_keeps {r : Request S E N} (hr : r.Inside) (m : Moment E N) {c : Connection S}
    (hc : c.committed = s ∧ c.working.isSome) :
    (Connection.answer r m c).1.committed = s ∧ (Connection.answer r m c).1.working.isSome := by
  obtain ⟨committed, working⟩ := c
  obtain ⟨rfl, hw⟩ := hc
  obtain ⟨t, rfl⟩ := Option.isSome_iff_exists.mp hw
  cases r with
  | begin => exact hr.elim
  | commit => exact hr.elim
  | fresh => exact ⟨rfl, rfl⟩
  | execute statement =>
    simp only [Connection.answer, Connection.carryOut]
    cases m.refusal with
    | some x => exact ⟨rfl, rfl⟩
    | none =>
      cases statement (Connection.current ⟨committed, some t⟩) with
      | error x => exact ⟨rfl, rfl⟩
      | ok r => exact ⟨rfl, rfl⟩

theorem wp_transaction {body : Session S E N A} (hb : body.Uses Request.Inside)
    {post : Except E A → Connection S → Prop} (herr : ∀ x c, c.committed = s → post (.error x) c)
    (h : (machine S E N).wp admits
      (fun r c => ∀ a t, r = .ok a → c = ⟨s, some t⟩ → post (.ok a) ⟨t, none⟩) body ⟨s, some s⟩) :
    (machine S E N).wp admits post (transaction body) ⟨s, none⟩ := by
  have hkept := Machine.wp_keeping (M := machine S E N)
    (fun c : Connection S => c.committed = s ∧ c.working.isSome)
    (fun r m c hr _ hc => inside_keeps hr m hc) hb ⟨rfl, rfl⟩ h
  refine Machine.wp_bind.mpr (wp_opening ?_ (fun x => herr x _ rfl))
  refine Machine.wp_bind.mpr (Machine.wp_mono hkept (fun r c hc => ?_))
  obtain ⟨committed, working⟩ := c
  obtain ⟨hpost, rfl, hw⟩ := hc
  obtain ⟨t, rfl⟩ := Option.isSome_iff_exists.mp hw
  cases r with
  | error x => exact herr x _ rfl
  | ok a =>
    exact Machine.wp_bind.mpr (wp_committing (hpost a t rfl rfl) (fun x => herr x _ rfl))

theorem exec_execute (statement : S → Except E (B × S)) (f : B → Session S E N A)
    (moments : Nat → Moment E N) (c : Connection S) :
    (machine S E N).exec ((execute statement).bind f) moments c =
      match (moments 0).refusal with
      | some x => (c, .error x)
      | none =>
        match statement c.current with
        | .error x => (c, .error x)
        | .ok (b, s) => (machine S E N).exec (f b) (fun n => moments (n + 1)) (c.write s) := by
  simp only [execute, Prog.perform, Prog.call_bind, Machine.exec, Connection.answer,
    Connection.carryOut]
  cases (moments 0).refusal with
  | some x => rfl
  | none => cases statement c.current <;> rfl

theorem exec_opening (f : Unit → Session S E N A) (moments : Nat → Moment E N) (c : Connection S) :
    (machine S E N).exec (opening.bind f) moments c =
      match (moments 0).refusal with
      | some x => (c, .error x)
      | none => (machine S E N).exec (f ()) (fun n => moments (n + 1))
          ⟨c.committed, some c.current⟩ := by
  simp only [opening, Prog.perform, Prog.call_bind, Machine.exec, Connection.answer,
    Connection.carryOut]
  cases (moments 0).refusal <;> rfl

def SameWork (c d : Connection S) : Prop :=
  c.working = d.working ∧ (c.working = none → c.committed = d.committed)

theorem SameWork.current {c d : Connection S} (h : SameWork c d) : c.current = d.current := by
  obtain ⟨hw, hc⟩ := h
  rw [Connection.current, Connection.current, ← hw]
  cases hcw : c.working with
  | none => exact hc hcw
  | some t => rfl

theorem SameWork.write {c d : Connection S} (h : SameWork c d) (s : S) :
    SameWork (c.write s) (d.write s) := by
  rw [Connection.write, Connection.write, ← h.1]
  cases c.working with
  | none => exact ⟨rfl, fun _ => rfl⟩
  | some t => exact ⟨rfl, fun hn => nomatch hn⟩

theorem SameWork.carryOut {c d : Connection S} (h : SameWork c d) (r : Request S E N) (name : N) :
    (c.carryOut r name).2 = (d.carryOut r name).2 ∧
      SameWork (c.carryOut r name).1 (d.carryOut r name).1 := by
  cases r with
  | fresh => exact ⟨rfl, h⟩
  | begin => exact ⟨rfl, congrArg some h.current, fun hn => nomatch hn⟩
  | commit => exact ⟨rfl, rfl, fun _ => h.current⟩
  | execute statement =>
    simp only [Connection.carryOut, h.current]
    cases statement d.current with
    | error x => exact ⟨rfl, h⟩
    | ok r => exact ⟨rfl, h.write r.2⟩

theorem SameWork.answer {c d : Connection S} (h : SameWork c d) (r : Request S E N)
    (m : Moment E N) : (Connection.answer r m c).2 = (Connection.answer r m d).2 ∧
      SameWork (Connection.answer r m c).1 (Connection.answer r m d).1 := by
  cases r with
  | fresh => exact h.carryOut .fresh m.fresh
  | begin | commit | execute _ =>
    simp only [Connection.answer]
    cases m.refusal with
    | some x => exact ⟨rfl, h⟩
    | none => exact h.carryOut _ _

theorem SameWork.exec {c d : Connection S} (h : SameWork c d) (p : Session S E N A)
    (moments : Nat → Moment E N) :
    ((machine S E N).exec p moments c).2 = ((machine S E N).exec p moments d).2 ∧
      SameWork ((machine S E N).exec p moments c).1 ((machine S E N).exec p moments d).1 :=
  Machine.exec_alike (M := machine S E N) SameWork (Prog.uses_any p)
    (fun r m _ _ _ hcd => SameWork.answer hcd r m) h moments

end Transactions
