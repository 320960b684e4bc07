import Mathlib

/-!
# Loops that poll

A loop that asks something outside in every turn, and ends with a result when the answer says so.
Its turns are a list here, which may be over before the loop is. Where the loop ends is the first
turn with a result, and the turns in front of it have all gone on (`pollUntil_eq_ok_some_iff`); so
what every turn that goes on has in common holds of all of them (`GoesOn.forall_turns`), and a clock
that makes progress bounds their number (`length_le_of_paced`).
-/

namespace Polling

variable {ε σ τ ρ : Type}

/-- Turn by turn, up to the first with a result; `none` when the turns are over before. -/
def pollUntil (turn : σ → τ → Except ε (σ ⊕ ρ)) : σ → List τ → Except ε (Option ρ)
  | _, [] => .ok none
  | s, t :: turns =>
    match turn s t with
    | .error e => .error e
    | .ok (.inr r) => .ok (some r)
    | .ok (.inl s) => pollUntil turn s turns

/-- The loop goes on through these turns. -/
inductive GoesOn (turn : σ → τ → Except ε (σ ⊕ ρ)) : σ → List τ → σ → Prop
  | nil (s : σ) : GoesOn turn s [] s
  | cons {s s' s'' : σ} {t : τ} {turns : List τ} (ht : turn s t = .ok (.inl s'))
    (hturns : GoesOn turn s' turns s'') : GoesOn turn s (t :: turns) s''

variable {turn : σ → τ → Except ε (σ ⊕ ρ)} {s s' : σ} {turns : List τ} {r : ρ}

theorem pollUntil_of_goesOn (h : GoesOn turn s turns s') (rest : List τ) :
    pollUntil turn s (turns ++ rest) = pollUntil turn s' rest := by
  induction h with
  | nil => rfl
  | cons ht hturns ih => rw [List.cons_append, pollUntil, ht, ← ih]

theorem pollUntil_eq_ok_some_iff :
    pollUntil turn s turns = .ok (some r) ↔
      ∃ front t rest s', turns = front ++ t :: rest ∧ GoesOn turn s front s' ∧
        turn s' t = .ok (.inr r) := by
  constructor
  · intro h
    induction turns generalizing s with
    | nil => cases h
    | cons t turns ih =>
      rw [pollUntil] at h
      rcases ht : turn s t with e | (s₁ | r₁) <;> rw [ht] at h
      · cases h
      · obtain ⟨front, t', rest, s', rfl, hfront, hr⟩ := ih h
        exact ⟨t :: front, t', rest, s', rfl, .cons ht hfront, hr⟩
      · obtain rfl := Option.some.inj (Except.ok.inj h)
        exact ⟨[], t, turns, s, rfl, .nil s, ht⟩
  · rintro ⟨front, t, rest, s', rfl, hfront, hr⟩
    rw [pollUntil_of_goesOn hfront, pollUntil, hr]

theorem pollUntil_eq_ok_none_iff :
    pollUntil turn s turns = .ok none ↔ ∃ s', GoesOn turn s turns s' := by
  constructor
  · intro h
    induction turns generalizing s with
    | nil => exact ⟨s, .nil s⟩
    | cons t turns ih =>
      rw [pollUntil] at h
      rcases ht : turn s t with e | (s₁ | r₁) <;> rw [ht] at h
      · cases h
      · obtain ⟨s', hturns⟩ := ih h
        exact ⟨s', .cons ht hturns⟩
      · cases h
  · rintro ⟨s', hturns⟩
    have hend := pollUntil_of_goesOn hturns []
    rwa [List.append_nil] at hend

/-- What holds of every turn that goes on. -/
theorem GoesOn.forall_turns {A : τ → Prop}
    (hA : ∀ s t s', turn s t = .ok (.inl s') → A t) (h : GoesOn turn s turns s') :
    ∀ t ∈ turns, A t := by
  induction h with
  | nil => exact fun _ ht ↦ absurd ht List.not_mem_nil
  | cons ht _ ih => exact List.forall_mem_cons.mpr ⟨hA _ _ _ ht, ih⟩

/-- The clock of each turn is at least an interval behind the one before. -/
def Paced (clock : τ → ℚ) (interval : ℚ) (turns : List τ) : Prop :=
  turns.IsChain fun t t' ↦ clock t + interval ≤ clock t'

/-- A clock that makes progress leaves time for so many turns only. -/
theorem length_le_of_paced {clock : τ → ℚ} {interval started deadline : ℚ}
    (hpaced : Paced clock interval turns) (hstarted : ∀ t ∈ turns.head?, started ≤ clock t)
    (hdeadline : ∀ t ∈ turns, clock t < deadline) (hne : turns ≠ []) :
    ((turns.length : ℚ) - 1) * interval < deadline - started := by
  induction turns generalizing started with
  | nil => exact absurd rfl hne
  | cons t turns ih =>
    have ht := hstarted t rfl
    obtain ⟨hnow, hrest⟩ := List.forall_mem_cons.mp hdeadline
    rcases eq_or_ne turns [] with rfl | hturns
    · simp only [List.length_singleton, Nat.cast_one, sub_self, zero_mul]
      linarith
    · have hnext : ∀ t' ∈ turns.head?, clock t + interval ≤ clock t' := by
        intro t' ht'
        cases turns with
        | nil => cases ht'
        | cons t₁ turns =>
          obtain rfl := Option.some.inj ht'
          exact (List.isChain_cons_cons.mp hpaced).1
      have htail := ih (List.IsChain.tail hpaced) hnext hrest hturns
      rw [List.length_cons, Nat.cast_succ]
      linarith

end Polling
