import Mathlib
import Z80.Error

namespace Z80

variable {ε ε' α β : Type}

theorem bind_eq_ok {x : Except ε α} {f : α → Except ε β} {b : β} :
    (x >>= f) = .ok b ↔ ∃ a, x = .ok a ∧ f a = .ok b := by
  cases x with
  | error e => simp [bind, Except.bind]
  | ok a => simp [bind, Except.bind]

theorem bind_eq_error {x : Except ε α} {f : α → Except ε β} {e : ε} :
    (x >>= f) = .error e ↔ x = .error e ∨ ∃ a, x = .ok a ∧ f a = .error e := by
  cases x with
  | error e => simp [bind, Except.bind]
  | ok a => simp [bind, Except.bind]

theorem map_eq_ok {f : α → β} {x : Except ε α} {b : β} :
    x.map f = .ok b ↔ ∃ a, x = .ok a ∧ f a = b := by
  cases x <;> simp [Except.map]

theorem mapError_eq_ok {f : ε → ε'} {x : Except ε α} {a : α} :
    x.mapError f = .ok a ↔ x = .ok a := by
  cases x <;> simp [Except.mapError]

theorem mapError_eq_error {f : ε → ε'} {x : Except ε α} {e : ε'} :
    x.mapError f = .error e ↔ ∃ e', x = .error e' ∧ f e' = e := by
  cases x <;> simp [Except.mapError]

structure Context.Extends (c c' : Context) : Prop where
  here : c.here = c'.here
  value : ∀ x v, c.value? x = some v → c'.value? x = some v

namespace Expr

variable {c c' : Context} {e : Expr} {v : Int32}

theorem eval_congr (here : c.here = c'.here) :
    ∀ {e : Expr}, (∀ x ∈ e.symbols, c.value? x = c'.value? x) → e.eval c = e.eval c' := by
  intro e
  induction e with
  | number n => intro _; rfl
  | here => intro _; simp only [eval, here]
  | symbol name =>
      intro h
      have hn : c.value? name = c'.value? name := h name (by simp [symbols])
      simp only [eval, hn]
  | unary op e ih =>
      intro h
      simp only [eval, ih h]
  | binary op l r ihl ihr =>
      intro h
      have hl := ihl fun x hx => h x (by simp [symbols, hx])
      have hr := ihr fun x hx => h x (by simp [symbols, hx])
      simp only [eval, hl, hr]

theorem eval_of_isClosed (closed : e.isClosed = true) (here : c.here = c'.here) :
    e.eval c = e.eval c' := by
  have hs : e.symbols = [] := by simpa [isClosed] using closed
  exact eval_congr here (by simp [hs])

theorem eval_of_extends (h : c.Extends c') :
    ∀ e : Expr, e.eval c' = e.eval c ∨ ∃ x, e.eval c = .error (.undefined x) := by
  intro e
  induction e with
  | number n => exact Or.inl rfl
  | here => exact Or.inl (by simp only [eval, h.here])
  | symbol name =>
      cases hc : c.value? name with
      | none => exact Or.inr ⟨name, by simp [eval, hc]⟩
      | some v => exact Or.inl (by simp [eval, hc, h.value name v hc])
  | unary op e ih =>
      rcases ih with ih | ⟨x, hx⟩
      · exact Or.inl (by simp only [eval, ih])
      · exact Or.inr ⟨x, by simp [eval, hx, bind, Except.bind]⟩
  | binary op l r ihl ihr =>
      rcases ihl with ihl | ⟨x, hx⟩
      · rcases ihr with ihr | ⟨x, hx⟩
        · exact Or.inl (by simp only [eval, ihl, ihr])
        -- An arithmetic fault on the left hides the undefined name on the right.
        · cases hl : l.eval c with
          | error fault => exact Or.inl (by simp [eval, ihl, hl, bind, Except.bind])
          | ok a => exact Or.inr ⟨x, by simp [eval, hl, hx, bind, Except.bind]⟩
      · exact Or.inr ⟨x, by simp [eval, hx, bind, Except.bind]⟩

theorem eval_ok_of_extends (h : c.Extends c') (hv : e.eval c = .ok v) : e.eval c' = .ok v := by
  rcases eval_of_extends h e with heq | ⟨x, hx⟩
  · rw [heq, hv]
  · rw [hv] at hx
    cases hx

theorem value_eq_ok : e.value c = .ok v ↔ e.eval c = .ok v :=
  mapError_eq_ok

theorem evalTolerant_eq_value : e.evalTolerant c = .ok (.value v) ↔ e.eval c = .ok v := by
  unfold evalTolerant
  split <;> simp_all

theorem evalTolerant_eq_unresolved {u : Expr} (h : e.evalTolerant c = .ok (.unresolved u)) :
    u = e ∧ ∃ x, e.eval c = .error (.undefined x) := by
  unfold evalTolerant at h
  split at h
  · cases h
  · next x hx =>
      cases h
      exact ⟨rfl, x, hx⟩
  · cases h

end Expr

end Z80
