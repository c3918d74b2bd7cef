import TreeCompare.Log

/-!
# Actions on a larger state

An action may keep more in its state than another one and still log the same events
and have the same result. Then it shows the other one in that part of its state that
a view picks out. This is kept by everything that actions are built with.
-/
namespace TreeCompare.Action

variable {σ τ ε ε' α β : Type} {view : τ → σ}

/-- What `x` does on its state is what `y` does on the part of the state in view. -/
def Shows (view : τ → σ) (x : Action τ ε α) (y : Action σ ε α) : Prop :=
  ∀ s, y (view s) = ⟨(x s).events, view (x s).state, (x s).result⟩

theorem shows_pure (a : α) : Shows view (pure a : Action τ ε α) (pure a) := fun _ => rfl

theorem shows_log (severity : Log.Severity) (target message : String) :
    Shows view (log severity target message : Action τ ε Unit) (log severity target message) :=
  fun _ => rfl

theorem shows_ofLogged (x : Logged ε α) : Shows view (ofLogged x) (ofLogged x) := fun _ => rfl

theorem shows_ofStep {step : τ → τ × Except ε α} {step' : σ → σ × Except ε α}
    (h : ∀ s, step' (view s) = (view (step s).1, (step s).2)) :
    Shows view (ofStep step) (ofStep step') := by
  intro s
  simp only [ofStep, h]

theorem Shows.mapError {x : Action τ ε α} {y : Action σ ε α} (h : Shows view x y)
    (f : ε → ε') : Shows view (x.mapError f) (y.mapError f) := by
  intro s
  simp only [Action.mapError, h s]

theorem Shows.bind {x : Action τ ε α} {y : Action σ ε α} (h : Shows view x y)
    {f : α → Action τ ε β} {g : α → Action σ ε β} (hfg : ∀ a, Shows view (f a) (g a)) :
    Shows view (x >>= f) (y >>= g) := by
  intro s
  have hy := h s
  rcases hx : x s with ⟨before, t, e | a⟩
  · rw [hx] at hy
    rw [bind_of_error hy, bind_of_error hx]
  · rw [hx] at hy
    have hafter := hfg a t
    rcases hf : f a t with ⟨after, u, result⟩
    rw [hf] at hafter
    rw [bind_of_ok hy hafter, bind_of_ok hx hf]

end TreeCompare.Action
