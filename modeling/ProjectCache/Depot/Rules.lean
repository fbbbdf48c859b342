import ProjectCache.Depot.Growth

namespace Depot

open Textual Nix Project Calendar Tables Store Db Programs

variable {A B : Type} {admits : Env → Prop} {post : Except Error A → World → Prop} {w : World}

theorem wp_perform {c : Call} {post : Except Error c.Reply → World → Prop} :
    machine.wp admits post (perform c) w ↔
      ∀ e, admits e → post (answer c e w).2 (answer c e w).1 := Machine.wp_call

theorem answer_error {c : Call} {e : Env} {w : World} {x : Error}
    (h : (answer c e w).2 = .error x) :
    ((answer c e w).1 = w ∨ (answer c e w).1 = (carryOut c e w).1) ∧
      (e.outcome = .answered → (carryOut c e w).2 = .error x) := by
  refine ⟨answer_state c e w, fun ha => ?_⟩
  rwa [answer_of_answered ha] at h

theorem wp_perform_of {c : Call} {post : Except Error c.Reply → World → Prop}
    (hok : ∀ e, admits e → ∀ r, (carryOut c e w).2 = .ok r → post (.ok r) (carryOut c e w).1)
    (herr : ∀ e, admits e → ∀ x, (e.outcome = .answered → (carryOut c e w).2 = .error x) →
      ∀ v, v = w ∨ v = (carryOut c e w).1 → post (.error x) v) :
    machine.wp admits post (perform c) w := by
  refine wp_perform.mpr (fun e he => ?_)
  cases hr : (answer c e w).2 with
  | ok r =>
    have ha := answer_of_ok hr
    rw [ha] at hr ⊢
    exact hok e he r hr
  | error x => exact herr e he x (answer_error hr).2 _ (answer_error hr).1

theorem wp_select {query : Database → B} {post : Except Error B → World → Prop}
    (hok : post (.ok (query w.db)) w)
    (herr : ∀ e, admits e → e.outcome ≠ .answered → ∀ x, post (.error x) w) :
    machine.wp admits post (select query) w := by
  refine wp_perform_of (fun e _ r hr => ?_) (fun e he x hx v hv => ?_)
  · simp only [carryOut, Except.ok.injEq] at hr ⊢
    exact hr ▸ hok
  · have hvw : v = w := hv.elim id id
    subst hvw
    refine herr e he (fun ha => ?_) x
    have := hx ha
    simp [carryOut] at this

theorem wp_now {post : Except Error UtcDateTime → World → Prop}
    (h : ∀ e, admits e → post (.ok e.now) w) : machine.wp admits post (perform .now) w :=
  wp_perform.mpr h

theorem wp_uuid {post : Except Error Uuid → World → Prop}
    (h : ∀ e, admits e → post (.ok e.uuid) w) : machine.wp admits post (perform .uuid) w :=
  wp_perform.mpr h

theorem wp_fill {length : Nat} {post : Except Error (KeyCrypto.RandomBytes length) → World → Prop}
    (hok : ∀ bytes, post (.ok bytes) w) (herr : ∀ x, post (.error x) w) :
    machine.wp admits post (perform (.fill length)) w := by
  refine wp_perform_of (fun e _ bytes _ => hok bytes) (fun e _ x _ v hv => ?_)
  have hvw : v = w := hv.elim id id
  exact hvw ▸ herr x

theorem wp_orFail {value : Option A} {error : Error} (hok : ∀ a, value = some a → post (.ok a) w)
    (herr : value = none → post (.error error) w) :
    machine.wp admits post (orFail value error) w := by
  cases value with
  | none => exact herr rfl
  | some a => exact hok a rfl

theorem wp_ofExcept {E : Type} {wrap : E → Error} {result : Except E A}
    (hok : ∀ a, result = .ok a → post (.ok a) w)
    (herr : ∀ x, result = .error x → post (.error (wrap x)) w) :
    machine.wp admits post (ofExcept wrap result) w := by
  cases result with
  | error x => exact herr x rfl
  | ok a => exact hok a rfl

theorem wp_of_uses {allowed : Call → Prop} {p : Action A} (invariant : World → Prop)
    (hp : p.Uses allowed) (hc : ∀ c e v, allowed c → invariant v → invariant (answer c e v).1)
    (h : invariant w) : machine.wp admits (fun _ v => invariant v) p w :=
  (Outline.of_invariant invariant (fun _ _ hab ha => hab ▸ ha)
    (fun c e v hd _ hv => hc c e v hd hv) hp h).mono (fun _ _ _ _ _ _ => trivial)
      (fun _ _ hv => hv)

theorem answer_select {query : Database → B} (e : Env) (w : World) :
    answer (.select (fun _ db => query db)) e w = (w, .ok (query w.db)) ∨
      ∃ x, answer (.select (fun _ db => query db)) e w = (w, .error x) := by
  unfold answer
  simp only [Call.local, Bool.false_eq_true, if_false, carryOut]
  split
  · exact Or.inl rfl
  · exact Or.inr ⟨_, rfl⟩
  · exact Or.inr ⟨_, rfl⟩

theorem outline_select {surrounding : machine.Surrounding}
    {check : Call → Env → World → Action B → Prop} {post : Except Error B → World → Prop}
    {query : Database → B} (h : ∀ v, surrounding.later w v → ∀ e, surrounding.admits e v →
      (∀ r, check (.select (fun _ db => query db)) e v (.done r)) ∧ post (.ok (query v.db)) v ∧
        ∀ x, post (.error x) v) :
    Outline surrounding check post (select query) w := by
  intro v hv e he
  obtain ⟨hc, hok, herr⟩ := h v hv e he
  refine ⟨hc _, ?_⟩
  change post (answer (.select (fun _ db => query db)) e v).2
    (answer (.select (fun _ db => query db)) e v).1
  rcases answer_select e v with ha | ⟨x, ha⟩
  · rw [ha]
    exact hok
  · rw [ha]
    exact herr x

end Depot
