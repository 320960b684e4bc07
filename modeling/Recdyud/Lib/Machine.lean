import Mathlib

/-!
# Machines and their runs

A *machine* makes one step for one action, or refuses it. What several parties do concurrently is a
machine whose actions are the steps of the parties: a list of actions is an interleaving, and a
property of every run is a property of every interleaving.

`Run.induction` is the invariant rule, for invariants that speak of the past as well: it goes
through the run from its beginning, with the run so far at hand.
-/

/-- From a state, an action is refused or leads to a new state. -/
structure Machine (σ α : Type*) where
  init : σ
  step : σ → α → Option σ

namespace Machine

variable {σ α : Type*} {M : Machine σ α}

/-- The state after a list of actions, unless one is refused. -/
def exec (M : Machine σ α) : σ → List α → Option σ
  | s, [] => some s
  | s, a :: as => (M.step s a).bind fun s' ↦ exec M s' as

/-- The actions lead from the initial state to `s`. -/
def Run (M : Machine σ α) (as : List α) (s : σ) : Prop := M.exec M.init as = some s

theorem exec_append (s : σ) (as bs : List α) :
    M.exec s (as ++ bs) = (M.exec s as).bind fun s' ↦ M.exec s' bs := by
  induction as generalizing s with
  | nil => rfl
  | cons a as ih =>
    rw [List.cons_append, exec, exec, Option.bind_assoc]
    exact congrArg _ (funext ih)

theorem exec_concat (s : σ) (as : List α) (a : α) :
    M.exec s (as ++ [a]) = (M.exec s as).bind fun s' ↦ M.step s' a := by
  rw [exec_append]
  refine congrArg _ (funext fun s' ↦ ?_)
  rw [exec]
  cases M.step s' a <;> rfl

theorem run_concat {as : List α} {a : α} {s' : σ} :
    M.Run (as ++ [a]) s' ↔ ∃ s, M.Run as s ∧ M.step s a = some s' := by
  rw [Run, exec_concat, Option.bind_eq_some_iff]
  rfl

/-- In front of every action of a run there is a run. -/
theorem Run.exists_front {as bs : List α} {a : α} {s : σ} (h : M.Run (as ++ a :: bs) s) :
    ∃ s₁ s₂, M.Run as s₁ ∧ M.step s₁ a = some s₂ := by
  rw [Run, exec_append] at h
  obtain ⟨s₁, hfront, h⟩ := Option.bind_eq_some_iff.mp h
  obtain ⟨s₂, hstep, -⟩ := Option.bind_eq_some_iff.mp h
  exact ⟨s₁, s₂, hfront, hstep⟩

/-- **The invariant rule.** What holds at the start and is kept by every step of a run holds after
every run. -/
theorem Run.induction {I : List α → σ → Prop} (hinit : I [] M.init)
    (hstep : ∀ as s a s', M.Run as s → I as s → M.step s a = some s' → I (as ++ [a]) s') :
    ∀ {as : List α} {s : σ}, M.Run as s → I as s := by
  intro as
  induction as using List.reverseRecOn with
  | nil =>
    intro s h
    obtain rfl := Option.some.inj h
    exact hinit
  | append_singleton as a ih =>
    intro s' h
    obtain ⟨s, hs, ha⟩ := run_concat.mp h
    exact hstep as s a s' hs (ih hs) ha

/-- A machine that refuses none of the actions in question runs, and keeps its invariant. -/
theorem exists_run {I : σ → Prop} {as : List α} (hinit : I M.init)
    (hstep : ∀ s, ∀ a ∈ as, I s → ∃ s', M.step s a = some s' ∧ I s') : ∃ s, M.Run as s ∧ I s := by
  induction as using List.reverseRecOn with
  | nil => exact ⟨M.init, rfl, hinit⟩
  | append_singleton as a ih =>
    obtain ⟨s, hrun, hs⟩ := ih fun s b hb ↦ hstep s b (List.mem_append_left _ hb)
    obtain ⟨s', ha, hs'⟩ := hstep s a (List.mem_append_right _ List.mem_cons_self) hs
    exact ⟨s', run_concat.mpr ⟨s, hrun, ha⟩, hs'⟩

/-- What every step extends, a run extends. -/
theorem prefix_of_exec {β : Type*} {f : σ → List β}
    (hstep : ∀ s a s', M.step s a = some s' → f s <+: f s') {as : List α} {s s' : σ}
    (h : M.exec s as = some s') : f s <+: f s' := by
  induction as generalizing s with
  | nil =>
    obtain rfl := Option.some.inj h
    exact List.prefix_rfl
  | cons a as ih =>
    obtain ⟨s₁, hs₁, hrest⟩ := Option.bind_eq_some_iff.mp h
    exact (hstep _ _ _ hs₁).trans (ih hrest)

theorem prefix_of_run {β : Type*} {f : σ → List β}
    (hstep : ∀ s a s', M.step s a = some s' → f s <+: f s') {as bs : List α} {s s' : σ}
    (h : M.Run as s) (h' : M.Run (as ++ bs) s') : f s <+: f s' := by
  rw [Run, exec_append, h] at h'
  exact prefix_of_exec hstep h'

/-- **The potential rule.** An invariant and a potential that no step raises and certain actions
lower: a run has at most as many of these actions as the potential allows. -/
theorem countP_le_of_exec {I : σ → Prop} {potential : σ → ℕ} {counts : α → Bool}
    (hkeeps : ∀ s a s', I s → M.step s a = some s' → I s')
    (hstep : ∀ s a s', I s → M.step s a = some s' →
      potential s' + (if counts a then 1 else 0) ≤ potential s)
    {as : List α} {s s' : σ} (hs : I s) (h : M.exec s as = some s') :
    as.countP counts + potential s' ≤ potential s ∧ I s' := by
  induction as generalizing s with
  | nil =>
    obtain rfl := Option.some.inj h
    exact ⟨(Nat.zero_add _).le, hs⟩
  | cons a as ih =>
    obtain ⟨s₁, hs₁, hrest⟩ := Option.bind_eq_some_iff.mp h
    obtain ⟨hcount, hs'⟩ := ih (hkeeps _ _ _ hs hs₁) hrest
    have hlower := hstep _ _ _ hs hs₁
    rw [List.countP_cons]
    exact ⟨by omega, hs'⟩

end Machine
