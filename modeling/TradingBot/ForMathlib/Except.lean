import Mathlib.Data.List.Forall2

/-!
# Exceptions that keep their state

Inversion lemmas for `Except`, what such a computation can raise, and inversion lemmas for
`ExceptT` over a state monad, where the state survives an exception. `ExceptT.eval` runs
such a computation from a state to its outcome and final state.
-/

universe u

namespace Except

variable {ε α β : Type u}

/-- A sequence succeeds exactly when both of its parts do. -/
theorem bind_eq_ok {x : Except ε α} {f : α → Except ε β} {b : β} :
    x >>= f = .ok b ↔ ∃ a, x = .ok a ∧ f a = .ok b := by
  cases x <;> simp [bind, Except.bind]

/-- A loop succeeds when every round does. -/
theorem mapM_eq_ok {f : α → Except ε β} {as : List α} {bs : List β} :
    as.mapM f = .ok bs ↔ List.Forall₂ (fun a b => f a = .ok b) as bs := by
  induction as generalizing bs with
  | nil =>
    rw [List.mapM_nil, List.forall₂_nil_left_iff, eq_comm (a := bs)]
    exact ⟨Except.ok.inj, congrArg Except.ok⟩
  | cons a as ih =>
    rw [List.mapM_cons, bind_eq_ok]
    constructor
    · rintro ⟨b, hb, hrest⟩
      obtain ⟨bs', hbs, hcons⟩ := bind_eq_ok.mp hrest
      cases hcons
      exact .cons hb (ih.mp hbs)
    · rintro (_ | ⟨hb, hbs⟩)
      exact ⟨_, hb, bind_eq_ok.mpr ⟨_, ih.mpr hbs, rfl⟩⟩

/-- A computation whose value passes a test has succeeded. -/
theorem exists_of_any {x : Except ε α} {p : α → Bool} (h : x.toOption.any p = true) :
    ∃ a, x = .ok a ∧ p a = true := by
  cases x with
  | ok a => exact ⟨a, rfl, h⟩
  | error e => cases h

/-- A value that a computation gives passes the tests that its values do. -/
theorem of_all {x : Except ε α} {p : α → Bool} {a : α} (h : x.toOption.all p = true)
    (ha : x = .ok a) : p a = true := by
  subst ha
  exact h

/-- Whatever a computation raises has a property. -/
def Raises (P : ε → Prop) (x : Except ε α) : Prop := ∀ e, x = .error e → P e

variable {P : ε → Prop}

/-- A value raises nothing. -/
theorem Raises.ok (a : α) : Raises P (.ok a : Except ε α) := nofun

/-- An exception with the property is raised with it. -/
theorem Raises.error {e : ε} (h : P e) : Raises P (.error e : Except ε α) := by
  rintro _ ⟨⟩
  exact h

/-- A weaker property holds of what is raised as well. -/
theorem Raises.mono {Q : ε → Prop} {x : Except ε α} (h : Raises P x) (hPQ : ∀ e, P e → Q e) :
    Raises Q x := fun e he => hPQ e (h e he)

/-- A sequence raises what one of its parts does. -/
theorem Raises.bind {x : Except ε α} {f : α → Except ε β} (hx : Raises P x)
    (hf : ∀ a, Raises P (f a)) : Raises P (x >>= f) := by
  cases x with
  | ok a => exact hf a
  | error e => exact .error (hx e rfl)

/-- A loop raises what one of its rounds does. -/
theorem Raises.mapM {f : α → Except ε β} (hf : ∀ a, Raises P (f a)) (as : List α) :
    Raises P (as.mapM f) := by
  induction as with
  | nil => exact .ok []
  | cons a as ih =>
    rw [List.mapM_cons]
    exact .bind (hf a) fun b => .bind ih fun bs => .ok (b :: bs)

/-- Two computations raise the same, or return related values. -/
inductive Agree (R : α → β → Prop) : Except ε α → Except ε β → Prop
  | ok {a : α} {b : β} : R a b → Agree R (.ok a) (.ok b)
  | error (e : ε) : Agree R (.error e) (.error e)

/-- A computation agrees with itself. -/
theorem Agree.refl (x : Except ε α) : Agree Eq x x := by
  cases x with
  | ok a => exact .ok rfl
  | error e => exact .error e

variable {α' β' : Type u} {R : α → α' → Prop} {S : β → β' → Prop}

/-- Sequences agree when their parts do. -/
theorem Agree.bind {x : Except ε α} {y : Except ε α'} {f : α → Except ε β} {g : α' → Except ε β'}
    (h : Agree R x y) (hfg : ∀ a b, R a b → Agree S (f a) (g b)) :
    Agree S (x >>= f) (y >>= g) := by
  cases h with
  | ok hab => exact hfg _ _ hab
  | error e => exact .error e

/-- Computations that agree still do under a weaker relation. -/
theorem Agree.mono {x : Except ε α} {y : Except ε α'} {R' : α → α' → Prop} (h : Agree R x y)
    (hle : ∀ a b, R a b → R' a b) : Agree R' x y := by
  cases h with
  | ok hab => exact .ok (hle _ _ hab)
  | error e => exact .error e

/-- What the right one returns is related to what the left one does. -/
theorem Agree.of_ok_right {x : Except ε α} {b : α'} (h : Agree R x (.ok b)) :
    ∃ a, x = .ok a ∧ R a b := by
  cases h with
  | ok hab => exact ⟨_, rfl, hab⟩

/-- When the left one returns, so does the right one. -/
theorem Agree.of_ok_left {a : α} {y : Except ε α'} (h : Agree R (.ok a) y) :
    ∃ b, y = .ok b ∧ R a b := by
  cases h with
  | ok hab => exact ⟨_, rfl, hab⟩

/-- Loops agree when their rounds do, by an invariant of what is still to come. -/
theorem Agree.foldlM {ι : Type*} {R : List ι → α → α' → Prop} {f : α → ι → Except ε α}
    {g : α' → ι → Except ε α'}
    (hstep : ∀ l ls a b, R (l :: ls) a b → Agree (R ls) (f a l) (g b l)) {ls : List ι} {a : α}
    {b : α'} (h : R ls a b) : Agree (R []) (ls.foldlM f a) (ls.foldlM g b) := by
  induction ls generalizing a b with
  | nil => exact .ok h
  | cons l ls ih =>
    rw [List.foldlM_cons, List.foldlM_cons]
    exact (hstep l ls a b h).bind fun _ _ => ih

end Except

namespace ExceptT

variable {ε σ α β : Type u}

/-- The outcome and the final state of a computation started in a state. -/
def eval (x : ExceptT ε (StateM σ) α) (s : σ) : Except ε α × σ := x.run.run s

/-- A value is returned with the state as it is. -/
@[simp] theorem eval_pure (a : α) (s : σ) :
    eval (pure a : ExceptT ε (StateM σ) α) s = (.ok a, s) := rfl

/-- An exception keeps the state as it is. -/
@[simp] theorem eval_throw (e : ε) (s : σ) :
    eval (throw e : ExceptT ε (StateM σ) α) s = (.error e, s) := rfl

/-- Plain exceptions leave the state alone. -/
@[simp] theorem eval_liftExcept (x : Except ε α) (s : σ) :
    eval (liftM x : ExceptT ε (StateM σ) α) s = (x, s) := rfl

/-- An update of the state returns nothing. -/
@[simp] theorem eval_modify (f : σ → σ) (s : σ) :
    eval (modify f : ExceptT ε (StateM σ) PUnit) s = (.ok ⟨⟩, f s) := rfl

/-- A computation goes on from the state that the first part left, unless that raised. -/
theorem eval_bind (x : ExceptT ε (StateM σ) α) (f : α → ExceptT ε (StateM σ) β) (s : σ) :
    eval (x >>= f) s =
      match eval x s with
      | (.ok a, t) => eval (f a) t
      | (.error e, t) => (.error e, t) := by
  simp only [eval, run_bind, StateT.run_bind]
  rcases x.run.run s with ⟨_ | _, t⟩ <;> rfl

/-- A sequence succeeds exactly when both of its parts do, the second in the state the
    first one left. -/
theorem eval_bind_eq_ok {x : ExceptT ε (StateM σ) α} {f : α → ExceptT ε (StateM σ) β} {s u : σ}
    {b : β} :
    eval (x >>= f) s = (.ok b, u) ↔ ∃ a t, eval x s = (.ok a, t) ∧ eval (f a) t = (.ok b, u) := by
  rw [eval_bind]
  rcases eval x s with ⟨e | a, t⟩
  · simp
  · constructor
    · intro h
      exact ⟨a, t, rfl, h⟩
    · rintro ⟨_, _, hx, h⟩
      cases hx
      exact h

/-- A continuation that leaves the state alone does not show in the final state. -/
theorem eval_bind_snd {x : ExceptT ε (StateM σ) α} {f : α → ExceptT ε (StateM σ) β} {s : σ}
    (hf : ∀ a t, (eval (f a) t).2 = t) : (eval (x >>= f) s).2 = (eval x s).2 := by
  rw [eval_bind]
  rcases eval x s with ⟨_ | a, t⟩
  · rfl
  · exact hf a t

end ExceptT
