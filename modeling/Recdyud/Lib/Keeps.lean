import Mathlib

/-!
# Invariants of code that raises

Code over a state may raise, and what it changed before stays changed. It *keeps* a property of the
state when the property holds afterwards if it held before, whether or not the code raised. The
rules below follow the code: what its parts keep, the whole keeps.

`Raises` bounds the exceptions that come out of code, and `Leaves` says what holds behind it from
any state; both have rules of the same shape.
-/

/-- The property holds behind the code, however that ended, if it held in front of it. -/
def Keeps {ε σ α : Type} (J : σ → Prop) (x : ExceptT ε (StateM σ) α) : Prop :=
  ∀ s, J s → J (x.run.run s).2

namespace Keeps

variable {ε σ τ α β : Type} {J : σ → Prop}

theorem of_pure (a : α) : Keeps J (pure a : ExceptT ε (StateM σ) α) := fun _ hs ↦ hs

theorem of_throw (e : ε) : Keeps J (throw e : ExceptT ε (StateM σ) α) := fun _ hs ↦ hs

theorem of_get : Keeps J (get : ExceptT ε (StateM σ) σ) := fun _ hs ↦ hs

theorem of_modify {f : σ → σ} (h : ∀ s, J s → J (f s)) :
    Keeps J (modify f : ExceptT ε (StateM σ) Unit) := h

theorem bind {x : ExceptT ε (StateM σ) α} {f : α → ExceptT ε (StateM σ) β} (hx : Keeps J x)
    (hf : ∀ a, Keeps J (f a)) : Keeps J (x >>= f) := by
  intro s hs
  have hnext := hx s hs
  rw [ExceptT.run_bind, StateT.run_bind]
  rcases hrun : x.run.run s with ⟨_ | a, s'⟩ <;> rw [hrun] at hnext
  · exact hnext
  · exact hf a s' hnext

theorem tryCatch {x : ExceptT ε (StateM σ) α} {f : ε → ExceptT ε (StateM σ) α} (hx : Keeps J x)
    (hf : ∀ e, Keeps J (f e)) : Keeps J (MonadExcept.tryCatch x f) := by
  intro s hs
  have hnext := hx s hs
  rw [ExceptT.run_tryCatch, StateT.run_bind]
  rcases hrun : x.run.run s with ⟨e | _, s'⟩ <;> rw [hrun] at hnext
  · exact hf e s' hnext
  · exact hnext

theorem ite {c : Prop} [Decidable c] {x y : ExceptT ε (StateM σ) α} (hx : Keeps J x)
    (hy : Keeps J y) : Keeps J (if c then x else y) := by
  split
  · exact hx
  · exact hy

theorem forM {f : τ → ExceptT ε (StateM σ) PUnit} (h : ∀ a, Keeps J (f a)) (l : List τ) :
    Keeps J (l.forM f) := by
  induction l with
  | nil => exact of_pure _
  | cons a l ih => exact bind (h a) fun _ ↦ ih

end Keeps

/-- Every exception out of the code is in `E`. -/
def Raises {ε σ α : Type} (E : ε → Prop) (x : ExceptT ε (StateM σ) α) : Prop :=
  ∀ s e, (x.run.run s).1 = .error e → E e

namespace Raises

variable {ε σ α β : Type} {E E' : ε → Prop}

theorem of_pure (a : α) : Raises E (pure a : ExceptT ε (StateM σ) α) := fun _ _ h ↦ by cases h

theorem of_get : Raises E (get : ExceptT ε (StateM σ) σ) := fun _ _ h ↦ by cases h

theorem of_modify (f : σ → σ) : Raises E (modify f : ExceptT ε (StateM σ) PUnit) :=
  fun _ _ h ↦ by cases h

theorem bind {x : ExceptT ε (StateM σ) α} {f : α → ExceptT ε (StateM σ) β} (hx : Raises E x)
    (hf : ∀ a, Raises E (f a)) : Raises E (x >>= f) := by
  intro s e h
  rw [ExceptT.run_bind, StateT.run_bind] at h
  rcases hrun : x.run.run s with ⟨e' | a, s'⟩ <;> rw [hrun] at h
  · obtain rfl := Except.error.inj h
    exact hx s e' (congrArg Prod.fst hrun)
  · exact hf a s' e h

/-- What the handler is given is what the code in front of it raises. -/
theorem tryCatch {x : ExceptT ε (StateM σ) α} {f : ε → ExceptT ε (StateM σ) α} (hx : Raises E x)
    (hf : ∀ e, E e → Raises E' (f e)) : Raises E' (MonadExcept.tryCatch x f) := by
  intro s e h
  rw [ExceptT.run_tryCatch, StateT.run_bind] at h
  rcases hrun : x.run.run s with ⟨e' | a, s'⟩ <;> rw [hrun] at h
  · exact hf e' (hx s e' (congrArg Prod.fst hrun)) s' e h
  · cases h

theorem ite {c : Prop} [Decidable c] {x y : ExceptT ε (StateM σ) α} (hx : Raises E x)
    (hy : Raises E y) : Raises E (if c then x else y) := by
  split
  · exact hx
  · exact hy

/-- Code that raises nothing returns. -/
theorem exists_ok {x : ExceptT ε (StateM σ) α} (h : Raises (fun _ ↦ False) x) (s : σ) :
    ∃ a s', x.run.run s = (.ok a, s') := by
  rcases hrun : x.run.run s with ⟨e | a, s'⟩
  · exact (h s e (congrArg Prod.fst hrun)).elim
  · exact ⟨a, s', rfl⟩

end Raises

/-- The property holds behind the code, whatever held in front of it. -/
def Leaves {ε σ α : Type} (J : σ → Prop) (x : ExceptT ε (StateM σ) α) : Prop :=
  ∀ s, J (x.run.run s).2

namespace Leaves

variable {ε σ α β : Type} {J : σ → Prop}

/-- The end of the code is reached if nothing raises in front of it. -/
theorem bind {x : ExceptT ε (StateM σ) α} {f : α → ExceptT ε (StateM σ) β}
    (hx : Raises (fun _ ↦ False) x) (hf : ∀ a, Leaves J (f a)) : Leaves J (x >>= f) := by
  intro s
  obtain ⟨a, s', hrun⟩ := hx.exists_ok s
  rw [ExceptT.run_bind, StateT.run_bind, hrun]
  exact hf a s'

theorem ite {c : Prop} [Decidable c] {x y : ExceptT ε (StateM σ) α} (hx : Leaves J x)
    (hy : Leaves J y) : Leaves J (if c then x else y) := by
  split
  · exact hx
  · exact hy

end Leaves
