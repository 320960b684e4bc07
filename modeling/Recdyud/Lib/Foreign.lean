import Mathlib

/-!
# Code with undefined behaviour, and code that calls back

`Code` changes a state, or has no defined behaviour and then no result. `Ends x Q s` says that the
code is defined from `s` and that `Q` holds of its result and of the state behind it; its rules
follow the code from its end to its beginning.

An `Arena` is memory that is freed by hand. Its operations are defined on live addresses alone, so
code that ends has used no freed memory and has freed nothing twice; what it leaves live is what it
has leaked.

Of `Foreign` code nothing is known but that it returns: it calls back any number of times, with what
it likes, and goes on with the answers. What the handler of its calls keeps, it keeps
(`ends_exec`), and what the handler says of every call, the log says of all of them
(`ends_execLogged`).
-/

/-- Code over a state; `none` is undefined behaviour. -/
abbrev Code (σ α : Type) := StateT σ Option α

namespace Code

variable {σ α β : Type}

/-- No result at all. -/
def undefined : Code σ α := fun _ ↦ none

/-- A value that may be missing. -/
def ofOption : Option α → Code σ α
  | some a => pure a
  | none => undefined

/-- The code is defined, and `Q` holds of its result and of the state behind it. -/
def Ends (x : Code σ α) (Q : α → σ → Prop) (s : σ) : Prop :=
  ∃ a s', x.run s = some (a, s') ∧ Q a s'

section Rules

variable {x : Code σ α} {f : α → Code σ β} {Q Q' : α → σ → Prop} {R : β → σ → Prop} {s : σ}

theorem Ends.mono (h : x.Ends Q s) (hQ : ∀ a s', Q a s' → Q' a s') : x.Ends Q' s := by
  obtain ⟨a, s', hrun, ha⟩ := h
  exact ⟨a, s', hrun, hQ a s' ha⟩

theorem ends_pure {a : α} (h : Q a s) : (pure a : Code σ α).Ends Q s := ⟨a, s, rfl, h⟩

theorem ends_bind (h : x.Ends (fun a ↦ (f a).Ends R) s) : (x >>= f).Ends R s := by
  obtain ⟨a, s', hrun, b, s'', hrun', hb⟩ := h
  refine ⟨b, s'', ?_, hb⟩
  rw [StateT.run_bind, hrun]
  exact hrun'

theorem ends_get {Q : σ → σ → Prop} (h : Q s s) : (get : Code σ σ).Ends Q s := ⟨s, s, rfl, h⟩

theorem ends_modify {g : σ → σ} {Q : PUnit → σ → Prop} (h : Q ⟨⟩ (g s)) :
    (modify g : Code σ PUnit).Ends Q s := ⟨⟨⟩, g s, rfl, h⟩

theorem ends_ofOption {o : Option α} {a : α} (ho : o = some a) (h : Q a s) :
    (ofOption o : Code σ α).Ends Q s := by
  rw [ho]
  exact ends_pure h

theorem ends_ite {c : Prop} [Decidable c] {y : Code σ α} (hx : c → x.Ends Q s)
    (hy : ¬c → y.Ends Q s) : (if c then x else y).Ends Q s := by
  split
  · exact hx ‹c›
  · exact hy ‹¬c›

end Rules

end Code

/-! ## Memory that is freed by hand -/

/-- The objects by their addresses. The place of an object that was freed stays empty. -/
structure Arena (α : Type) where
  cells : List (Option α) := []

namespace Arena

variable {α : Type}

def read (m : Arena α) (p : ℕ) : Option α := m.cells[p]?.join

/-- The addresses of the objects there are. -/
def live (m : Arena α) : Set ℕ := {p | ∃ a, m.read p = some a}

theorem mem_live_iff {m : Arena α} {p : ℕ} : p ∈ m.live ↔ ∃ a, m.read p = some a := Iff.rfl

def alloc (m : Arena α) (a : α) : ℕ × Arena α := (m.cells.length, ⟨m.cells ++ [some a]⟩)

/-- Only to an object that is there. -/
def write (m : Arena α) (p : ℕ) (a : α) : Option (Arena α) :=
  (m.read p).map fun _ ↦ ⟨m.cells.set p (some a)⟩

/-- Only an object that is there. -/
def free (m : Arena α) (p : ℕ) : Option (Arena α) :=
  (m.read p).map fun _ ↦ ⟨m.cells.set p none⟩

variable {m m' : Arena α} {p : ℕ} {a b : α}

theorem lt_of_read (h : m.read p = some a) : p < m.cells.length := by
  by_contra hge
  rw [read, List.getElem?_eq_none (not_lt.mp hge)] at h
  cases h

@[simp] theorem live_empty : ({} : Arena α).live = ∅ :=
  Set.eq_empty_of_forall_notMem fun _ ⟨_, h⟩ ↦ absurd (lt_of_read h) (Nat.not_lt_zero _)

/-- There was nothing at a new address. -/
theorem read_new (m : Arena α) (a : α) : m.read (m.alloc a).1 = none := by
  rw [read, alloc, List.getElem?_eq_none le_rfl]
  rfl

theorem read_alloc (m : Arena α) (a : α) :
    (m.alloc a).2.read = Function.update m.read (m.alloc a).1 (some a) := by
  ext1 q
  rcases lt_trichotomy q m.cells.length with hlt | rfl | hgt
  · rw [Function.update_of_ne (show q ≠ (m.alloc a).1 from hlt.ne)]
    simp only [read, alloc, List.getElem?_append_left hlt]
  · rw [show m.cells.length = (m.alloc a).1 from rfl, Function.update_self]
    simp [read, alloc]
  · have hnone : (m.cells ++ [some a])[q]? = none :=
      List.getElem?_eq_none (by rw [List.length_append, List.length_singleton]; omega)
    rw [Function.update_of_ne (show q ≠ (m.alloc a).1 from hgt.ne')]
    simp only [read, alloc, hnone, List.getElem?_eq_none hgt.le]

theorem read_set (h : m.read p = some a) (o : Option α) :
    (⟨m.cells.set p o⟩ : Arena α).read = Function.update m.read p o := by
  ext1 q
  by_cases hq : q = p
  · subst hq
    rw [Function.update_self]
    simp [read, lt_of_read h]
  · rw [Function.update_of_ne hq]
    simp [read, Ne.symm hq]

theorem exists_write (h : m.read p = some a) (b : α) :
    ∃ m', m.write p b = some m' ∧ m'.read = Function.update m.read p (some b) :=
  ⟨_, by rw [write, h, Option.map_some], read_set h _⟩

theorem exists_free (h : m.read p = some a) :
    ∃ m', m.free p = some m' ∧ m'.read = Function.update m.read p none :=
  ⟨_, by rw [free, h, Option.map_some], read_set h _⟩

theorem live_of_read_some (h : m'.read = Function.update m.read p (some a)) :
    m'.live = insert p m.live := by
  ext q
  rw [mem_live_iff, h, Set.mem_insert_iff]
  by_cases hq : q = p
  · subst hq
    rw [Function.update_self]
    exact iff_of_true ⟨a, rfl⟩ (.inl rfl)
  · rw [Function.update_of_ne hq, or_iff_right hq, mem_live_iff]

theorem live_of_read_none (h : m'.read = Function.update m.read p none) :
    m'.live = m.live \ {p} := by
  ext q
  rw [mem_live_iff, h, Set.mem_sdiff, Set.mem_singleton_iff]
  by_cases hq : q = p
  · subst hq
    rw [Function.update_self]
    exact iff_of_false nofun fun hmem ↦ hmem.2 rfl
  · rw [Function.update_of_ne hq, and_iff_left hq, mem_live_iff]

end Arena

/-! ## Owners -/

/-- `f` gives some owners what they own: the things in `S`, each to one owner. -/
structure OneToOne {ι : Type} (f : ι → Option ℕ) (S : Set ℕ) : Prop where
  mem_iff : ∀ p, p ∈ S ↔ ∃ i, f i = some p
  injective : ∀ i j p, f i = some p → f j = some p → i = j

/-- What becomes of a thing that one owner has, or has not, and of the things there are. -/
inductive Handover : Option ℕ → Set ℕ → Option ℕ → Set ℕ → Prop where
  | stay (o : Option ℕ) (S : Set ℕ) : Handover o S o S
  | gain {p : ℕ} {S : Set ℕ} (h : p ∉ S) : Handover none S (some p) (insert p S)
  | lose (p : ℕ) (S : Set ℕ) : Handover (some p) S none (S \ {p})

namespace Handover

variable {S S' : Set ℕ} {p : ℕ}

theorem eq_of_none (h : Handover none S none S') : S' = S := by
  cases h
  rfl

theorem eq_insert (h : Handover none S (some p) S') : S' = insert p S := by
  cases h
  rfl

theorem eq_sdiff (h : Handover (some p) S none S') : S' = S \ {p} := by
  cases h
  rfl

end Handover

namespace OneToOne

variable {ι : Type} {f : ι → Option ℕ} {S S' : Set ℕ} {i : ι} {p : ℕ}

theorem empty : OneToOne (fun _ : ι ↦ none) ∅ where
  mem_iff _ := iff_of_false (Set.notMem_empty _) nofun
  injective := nofun

/-- Owners who have nothing leave nothing. -/
theorem eq_empty (h : OneToOne f S) (hf : ∀ i, f i = none) : S = ∅ := by
  refine Set.eq_empty_of_forall_notMem fun p hp ↦ ?_
  obtain ⟨i, hi⟩ := (h.mem_iff p).mp hp
  rw [hf i] at hi
  cases hi

variable [DecidableEq ι]

theorem gain (h : OneToOne f S) (hi : f i = none) (hp : p ∉ S) :
    OneToOne (Function.update f i (some p)) (insert p S) := by
  -- another owner of `p` would have had it before
  have hother : ∀ j, j ≠ i → f j ≠ some p := fun j _ hj ↦ hp ((h.mem_iff p).mpr ⟨j, hj⟩)
  constructor
  · intro q
    rw [Set.mem_insert_iff, h.mem_iff]
    constructor
    · rintro (rfl | ⟨j, hj⟩)
      · exact ⟨i, Function.update_self ..⟩
      · have hne : j ≠ i := fun heq ↦ by rw [heq, hi] at hj; cases hj
        exact ⟨j, by rw [Function.update_of_ne hne, hj]⟩
    · rintro ⟨j, hj⟩
      by_cases hji : j = i
      · rw [hji, Function.update_self] at hj
        exact .inl (Option.some.inj hj).symm
      · rw [Function.update_of_ne hji] at hj
        exact .inr ⟨j, hj⟩
  · intro j k q hj hk
    by_cases hji : j = i <;> by_cases hki : k = i
    · rw [hji, hki]
    · rw [hji, Function.update_self] at hj
      rw [Function.update_of_ne hki, ← hj] at hk
      exact absurd hk (hother k hki)
    · rw [hki, Function.update_self] at hk
      rw [Function.update_of_ne hji, ← hk] at hj
      exact absurd hj (hother j hji)
    · rw [Function.update_of_ne hji] at hj
      rw [Function.update_of_ne hki] at hk
      exact h.injective j k q hj hk

theorem lose (h : OneToOne f S) (hi : f i = some p) :
    OneToOne (Function.update f i none) (S \ {p}) := by
  have hrest : ∀ j q, Function.update f i none j = some q → j ≠ i ∧ f j = some q := by
    intro j q hj
    by_cases hji : j = i
    · rw [hji, Function.update_self] at hj
      cases hj
    · exact ⟨hji, by rwa [Function.update_of_ne hji] at hj⟩
  constructor
  · intro q
    rw [Set.mem_sdiff, Set.mem_singleton_iff, h.mem_iff]
    constructor
    · rintro ⟨⟨j, hj⟩, hne⟩
      have hji : j ≠ i := fun heq ↦ hne (Option.some.inj (hj.symm.trans (heq ▸ hi)))
      exact ⟨j, by rw [Function.update_of_ne hji, hj]⟩
    · rintro ⟨j, hj⟩
      obtain ⟨hji, hj⟩ := hrest j q hj
      exact ⟨⟨j, hj⟩, fun heq ↦ hji (h.injective j i p (heq ▸ hj) hi)⟩
  · intro j k q hj hk
    exact h.injective j k q (hrest j q hj).2 (hrest k q hk).2

/-- **One owner** does something. -/
theorem handover (h : OneToOne f S) {o' : Option ℕ} (ho : Handover (f i) S o' S') :
    OneToOne (Function.update f i o') S' := by
  generalize hi : f i = o at ho
  cases ho with
  | stay =>
    rw [← hi, Function.update_eq_self]
    exact h
  | gain hp => exact h.gain hi hp
  | lose => exact h.lose hi

end OneToOne

/-! ## Foreign code -/

/-- Code that returns, or calls back and goes on with the answer. -/
inductive Foreign (κ ρ α : Type) where
  | done (a : α)
  | call (k : κ) (next : ρ → Foreign κ ρ α)

namespace Foreign

open Code

variable {κ ρ α σ : Type}

/-- The foreign code with its calls answered by a handler. -/
def exec (handler : κ → Code σ ρ) : Foreign κ ρ α → Code σ α
  | done a => pure a
  | call k next => do
    let r ← handler k
    exec handler (next r)

/-- The same, with the calls and their answers. -/
def execLogged (handler : κ → Code σ ρ) (log : List (κ × ρ)) :
    Foreign κ ρ α → Code σ (α × List (κ × ρ))
  | done a => pure (a, log)
  | call k next => do
    let r ← handler k
    execLogged handler (log ++ [(k, r)]) (next r)

variable {handler : κ → Code σ ρ}

theorem exec_eq (x : Foreign κ ρ α) (log : List (κ × ρ)) :
    x.exec handler = Prod.fst <$> x.execLogged handler log := by
  induction x generalizing log with
  | done a => rfl
  | call k next ih =>
    rw [exec, execLogged, map_bind]
    exact bind_congr fun r ↦ ih r (log ++ [(k, r)])

/-- **The rule of foreign code, with its log.** What holds at first and is kept by every call and
its answer holds of all the calls. -/
theorem ends_execLogged {I : List (κ × ρ) → σ → Prop}
    (hhandler : ∀ log k s, I log s → (handler k).Ends (fun r ↦ I (log ++ [(k, r)])) s)
    (x : Foreign κ ρ α) {log : List (κ × ρ)} {s : σ} (hs : I log s) :
    (x.execLogged handler log).Ends (fun a ↦ I a.2) s := by
  induction x generalizing log s with
  | done a => exact ends_pure hs
  | call k next ih => exact ends_bind ((hhandler log k s hs).mono fun r s' hs' ↦ ih r hs')

/-- **The rule of foreign code.** -/
theorem ends_exec {I : σ → Prop}
    (hhandler : ∀ k s, I s → (handler k).Ends (fun _ ↦ I) s) (x : Foreign κ ρ α) {s : σ}
    (hs : I s) : (x.exec handler).Ends (fun _ ↦ I) s := by
  induction x generalizing s with
  | done a => exact ends_pure hs
  | call k next ih => exact ends_bind ((hhandler k s hs).mono fun r s' hs' ↦ ih r hs')

end Foreign
