import Mathlib

/-!
# Interleaved streams

A list whose elements carry a key is an interleaving of one stream for every key. What a program
does with each stream by itself cannot depend on the interleaving, so its results are functions of
the `projection`s; and lists with the same projections are permutations of each other
(`perm_of_projection_eq`), which settles everything that is merely counted.

What is said of a single stream is often said of its adjacent elements. `breaks R` counts the
adjacent pairs that are not related by `R`; a list without breaks is a chain, and joining two lists
adds at most the pair at the joint (`breaks_append`).
-/

variable {α κ : Type*}

/-! ## Projections -/

/-- The stream of one key. -/
def projection [DecidableEq κ] (key : α → κ) (k : κ) (l : List α) : List α :=
  l.filter fun a ↦ key a = k

section Projection

variable [DecidableEq κ] {key : α → κ}

theorem projection_append (k : κ) (l l' : List α) :
    projection key k (l ++ l') = projection key k l ++ projection key k l' := List.filter_append ..

/-- **Lists with the same streams** are permutations of each other. -/
theorem perm_of_projection_eq [DecidableEq α] {l l' : List α}
    (h : ∀ k, projection key k l = projection key k l') : l.Perm l' := by
  rw [List.perm_iff_count]
  intro a
  have hcount (l : List α) : l.count a = (projection key (key a) l).count a :=
    (List.count_filter (by simp)).symm
  rw [hcount l, hcount l', h]

end Projection

/-! ## Breaks -/

section Breaks

variable (R : α → α → Prop) [DecidableRel R]

/-- How many adjacent pairs are not related. -/
def breaks : List α → ℕ
  | [] => 0
  | [_] => 0
  | a :: b :: l => (if R a b then 0 else 1) + breaks (b :: l)

variable {R}

theorem breaks_eq_zero_of_isChain {l : List α} (h : l.IsChain R) : breaks R l = 0 := by
  induction l with
  | nil => rfl
  | cons a l ih =>
    cases l with
    | nil => rfl
    | cons b l =>
      obtain ⟨hab, hl⟩ := List.isChain_cons_cons.mp h
      rw [breaks, if_pos hab, ih hl]

/-- Two lists joined break where they broke, and perhaps at the joint. -/
theorem breaks_append (l l' : List α) :
    breaks R (l ++ l') = breaks R l + breaks R l'
      + if ∃ a ∈ l.getLast?, ∃ b ∈ l'.head?, ¬R a b then 1 else 0 := by
  induction l with
  | nil => simp [breaks]
  | cons a l ih =>
    cases l with
    | cons c l =>
      rw [List.cons_append, List.cons_append, breaks, ← List.cons_append, ih, breaks,
        List.getLast?_cons_cons, Nat.add_assoc, Nat.add_assoc, Nat.add_assoc]
    | nil =>
      cases l' with
      | nil => simp [breaks]
      | cons b l' => by_cases hab : R a b <;> simp [breaks, hab, Nat.add_comm]

/-- One element more. -/
theorem breaks_concat (l : List α) (b : α) :
    breaks R (l ++ [b]) = breaks R l + if ∃ a ∈ l.getLast?, ¬R a b then 1 else 0 := by
  rw [breaks_append, breaks, Nat.add_zero]
  simp

end Breaks
