import Marshal.Registry.Serialize

namespace Marshal.Effect

variable {σ ε α β : Type}

theorem run_bind (x : ExceptT ε (StateM σ) α) (f : α → ExceptT ε (StateM σ) β) (s : σ) :
    (x >>= f).run s =
      match x.run s with
      | (.ok a, s') => (f a).run s'
      | (.error e, s') => (.error e, s') := by
  rw [ExceptT.run_bind]
  change StateT.bind x.run _ s = _
  cases h : x.run s with
  | mk result s' => cases result <;> simp [StateT.bind, h] <;> rfl

theorem run_pure (a : α) (s : σ) : (pure a : ExceptT ε (StateM σ) α).run s = (.ok a, s) := rfl

theorem run_get (s : σ) : (get : ExceptT ε (StateM σ) σ).run s = (.ok s, s) := rfl

theorem run_set (s s' : σ) : (set s' : ExceptT ε (StateM σ) PUnit).run s = (.ok ⟨⟩, s') := rfl

theorem run_bind_eq_ok {x : ExceptT ε (StateM σ) α} {f : α → ExceptT ε (StateM σ) β} {s s' : σ}
    {b : β} :
    (x >>= f).run s = (.ok b, s') ↔
      ∃ a middle, x.run s = (.ok a, middle) ∧ (f a).run middle = (.ok b, s') := by
  rw [run_bind]
  constructor
  · intro h
    split at h
    next a middle hx => exact ⟨a, middle, hx, h⟩
    next => cases h
  · rintro ⟨a, middle, hx, hf⟩
    rw [hx]
    exact hf

theorem run_tryCatch {x : ExceptT ε (StateM σ) α} {s s' : σ} {a : α} (ran : x.run s = (.ok a, s'))
    (f : ε → ExceptT ε (StateM σ) α) : (tryCatch x f).run s = (.ok a, s') := by
  rw [ExceptT.run_tryCatch]
  change StateT.bind x.run _ s = _
  rw [StateT.bind, ran]
  rfl

theorem run_tryCatch_error {x : ExceptT ε (StateM σ) α} {s s' : σ} {e : ε}
    (ran : x.run s = (.error e, s')) (f : ε → ExceptT ε (StateM σ) α) :
    (tryCatch x f).run s = (f e).run s' := by
  rw [ExceptT.run_tryCatch]
  change StateT.bind x.run _ s = _
  rw [StateT.bind, ran]
  rfl

theorem bind_eq_ok_iff {x : Except ε α} {f : α → Except ε β} {b : β} :
    (x >>= f) = .ok b ↔ ∃ a, x = .ok a ∧ f a = .ok b := by
  cases x with
  | error e => simp [bind, Except.bind]
  | ok a => simp [bind, Except.bind]

/-- A step that carries a state of its own besides: it gives `a` and leaves both states so. -/
def Gives {τ : Type} (x : StateT τ (ExceptT ε (StateM σ)) α) (t : τ) (s : σ) (a : α) (t' : τ)
    (s' : σ) : Prop :=
  (x.run t).run s = (.ok (a, t'), s')

namespace Gives

variable {τ : Type} {x : StateT τ (ExceptT ε (StateM σ)) α}
  {f : α → StateT τ (ExceptT ε (StateM σ)) β} {t t' t'' : τ} {s s' s'' : σ} {a : α} {b : β}

theorem pure (a : α) (t : τ) (s : σ) :
    Gives (pure a : StateT τ (ExceptT ε (StateM σ)) α) t s a t s := rfl

theorem run_bind (hx : Gives x t s a t' s') :
    ((x >>= f).run t).run s = ((f a).run t').run s' := by
  rw [StateT.run_bind, Effect.run_bind, hx]

theorem bind (hx : Gives x t s a t' s') (hf : Gives (f a) t' s' b t'' s'') :
    Gives (x >>= f) t s b t'' s'' :=
  hx.run_bind.trans hf

theorem lift {action : ExceptT ε (StateM σ) α} (ran : action.run s = (.ok a, s')) :
    Gives (monadLift action : StateT τ (ExceptT ε (StateM σ)) α) t s a t s' := by
  change (action >>= fun a => Pure.pure (a, t)).run s = _
  rw [Effect.run_bind, ran]
  rfl

theorem get (t : τ) (s : σ) :
    Gives (get : StateT τ (ExceptT ε (StateM σ)) τ) t s t t s := rfl

theorem set (t t' : τ) (s : σ) :
    Gives (set t' : StateT τ (ExceptT ε (StateM σ)) PUnit) t s ⟨⟩ t' s := rfl

theorem modify (f : τ → τ) (t : τ) (s : σ) :
    Gives (modify f : StateT τ (ExceptT ε (StateM σ)) PUnit) t s ⟨⟩ (f t) s := rfl

end Gives

end Marshal.Effect
