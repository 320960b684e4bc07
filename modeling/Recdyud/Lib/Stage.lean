import Mathlib

/-!
# Stream stages and independence of the cut

A *stage* consumes a stream in batches: it takes a state and a batch, and gives a new state and a
batch of output. How the stream was cut into batches is an accident of the transport, so the
property one wants is that only the concatenation matters. It is enough to know it for two
consecutive batches — `Stage.Incremental` — and that form composes: the output of one stage may be
the input of the next, and the second one need only be incremental on batches of the shape the
first one produces.

Fallible stages, written in a monad, are run by `feedAll`; a stage that never fails is reduced to
its pure form by `feedAll_eq_pure`.
-/

universe u

/-- Feed the batches one after the other, concatenating what comes out. -/
def feedAll {m : Type u → Type*} [Monad m] {σ β : Type u} {α : Type*}
    (f : σ → List α → m (σ × List β)) : σ → List (List α) → m (σ × List β)
  | s, [] => pure (s, [])
  | s, c :: cs => do
    let (s', out) ← f s c
    let (s'', outs) ← feedAll f s' cs
    pure (s'', out ++ outs)

/-- A stateful stage: state and batch to state and output. -/
abbrev Stage (σ α β : Type*) := σ → List α → σ × List β

namespace Stage

variable {σ τ α β γ : Type*}

/-- Run a stage over a list of batches. -/
def runs (f : Stage σ α β) : σ → List (List α) → σ × List β
  | s, [] => (s, [])
  | s, c :: cs => ((f.runs (f s c).1 cs).1, (f s c).2 ++ (f.runs (f s c).1 cs).2)

/-- Two consecutive batches are worth their concatenation, for batches satisfying `P`. -/
structure Incremental (P : List α → Prop) (f : Stage σ α β) : Prop where
  /-- The state after both batches. -/
  state : ∀ s a b, P a → P b → (f s (a ++ b)).1 = (f (f s a).1 b).1
  /-- The output of both batches. -/
  output : ∀ s a b, P a → P b → (f s (a ++ b)).2 = (f s a).2 ++ (f (f s a).1 b).2

namespace Incremental

variable {P : List α → Prop} {Q : List β → Prop} {f : Stage σ α β} {g : Stage τ β γ}

/-- After any batch, an empty one changes nothing and produces nothing. -/
theorem nil_after (hf : f.Incremental P) (hnil : P []) {a : List α} (ha : P a) (s : σ) :
    f (f s a).1 [] = ((f s a).1, []) := by
  have hstate := hf.state s a [] ha hnil
  have hout := hf.output s a [] ha hnil
  rw [List.append_nil] at hstate hout
  exact Prod.ext hstate.symm (List.self_eq_append_right.mp hout)

/-- **Independence of the cut.** Running an incremental stage over batches is one call on their
concatenation. Only the start state has to be known to be idle on the empty batch. -/
theorem runs_eq (hf : f.Incremental P) (hnil : P []) (happ : ∀ a b, P a → P b → P (a ++ b)) :
    ∀ {s : σ}, f s [] = (s, []) → ∀ cs : List (List α), (∀ c ∈ cs, P c) →
      f.runs s cs = f s cs.flatten := by
  intro s hs cs
  induction cs generalizing s with
  | nil => intro _; rw [runs, List.flatten_nil, hs]
  | cons c cs ih =>
    intro hcs
    have hc : P c := hcs c List.mem_cons_self
    have hrest : ∀ d ∈ cs, P d := fun d hd ↦ hcs d (List.mem_cons_of_mem _ hd)
    have hflat : P cs.flatten := by
      clear ih hcs
      induction cs with
      | nil => exact hnil
      | cons d ds ihd =>
        rw [List.flatten_cons]
        exact happ _ _ (hrest d List.mem_cons_self)
          (ihd fun e he ↦ hrest e (List.mem_cons_of_mem _ he))
    rw [runs, ih (hf.nil_after hnil hc s) hrest, List.flatten_cons]
    exact Prod.ext (hf.state s c _ hc hflat).symm (hf.output s c _ hc hflat).symm

end Incremental

/-- Feed the output of `f` to `g`. -/
def comp (f : Stage σ α β) (g : Stage τ β γ) : Stage (σ × τ) α γ := fun s a ↦
  (((f s.1 a).1, (g s.2 (f s.1 a).2).1), (g s.2 (f s.1 a).2).2)

/-- Composition keeps incrementality when the first stage produces what the second one expects. -/
theorem Incremental.comp {P : List α → Prop} {Q : List β → Prop} {f : Stage σ α β}
    {g : Stage τ β γ} (hf : f.Incremental P) (hg : g.Incremental Q)
    (hout : ∀ s a, P a → Q (f s a).2) : (f.comp g).Incremental P where
  state := by
    intro s a b ha hb
    simp only [Stage.comp]
    rw [hf.state _ _ _ ha hb, hf.output _ _ _ ha hb, hg.state _ _ _ (hout _ _ ha) (hout _ _ hb)]
  output := by
    intro s a b ha hb
    simp only [Stage.comp]
    rw [hf.output _ _ _ ha hb, hg.output _ _ _ (hout _ _ ha) (hout _ _ hb)]

/-- A stage that only looks: it updates its state and passes the batch on. -/
def observe (u : σ → List α → σ) : Stage σ α α := fun s a ↦ (u s a, a)

theorem Incremental.observe {P : List α → Prop} {u : σ → List α → σ}
    (hu : ∀ s a b, P a → P b → u s (a ++ b) = u (u s a) b) :
    (Stage.observe u).Incremental P where
  state := hu
  output := fun _ _ _ _ _ ↦ rfl

/-- A stage that ignores its state and treats each batch by itself. -/
def ofFun (h : List α → List β) : Stage σ α β := fun s a ↦ (s, h a)

theorem Incremental.ofFun {P : List α → Prop} {h : List α → List β}
    (hh : ∀ a b, P a → P b → h (a ++ b) = h a ++ h b) :
    (Stage.ofFun h : Stage σ α β).Incremental P where
  state := fun _ _ _ _ _ ↦ rfl
  output := fun _ a b ha hb ↦ hh a b ha hb

/-- Do nothing on an empty batch. -/
def skipEmpty (f : Stage σ α β) : Stage σ α β
  | s, [] => (s, [])
  | s, x :: a => f s (x :: a)

theorem Incremental.skipEmpty {P : List α → Prop} {f : Stage σ α β} (hf : f.Incremental P) :
    f.skipEmpty.Incremental P where
  state := by
    intro s a b ha hb
    cases a with
    | nil => rfl
    | cons x a =>
      cases b with
      | nil => rw [List.append_nil]; rfl
      | cons y b => exact hf.state s (x :: a) (y :: b) ha hb
  output := by
    intro s a b ha hb
    cases a with
    | nil => rfl
    | cons x a =>
      cases b with
      | nil => rw [List.append_nil]; exact (List.append_nil _).symm
      | cons y b => exact hf.output s (x :: a) (y :: b) ha hb

/-- The state after a run. -/
theorem runs_fst (f : Stage σ α β) (s : σ) (cs : List (List α)) :
    (f.runs s cs).1 = cs.foldl (fun s c ↦ (f s c).1) s := by
  induction cs generalizing s with
  | nil => rfl
  | cons c cs ih => exact ih _

end Stage

/-- A fallible stage that never fails, in the states that are reached, runs as its pure form
does. -/
theorem feedAll_eq_pure {m : Type u → Type*} [Monad m] [LawfulMonad m] {σ β : Type u} {α : Type*}
    {f : σ → List α → m (σ × List β)} {g : Stage σ α β} {I : σ → Prop}
    (h : ∀ s, I s → ∀ a, f s a = pure (g s a)) (hI : ∀ s, I s → ∀ a, I (g s a).1) {s : σ} (hs : I s)
    (cs : List (List α)) : feedAll f s cs = pure (g.runs s cs) := by
  induction cs generalizing s with
  | nil => rfl
  | cons c cs ih =>
    rw [feedAll, h s hs, pure_bind]
    dsimp only
    rw [ih (hI s hs c), pure_bind]
    rfl

theorem feedAll_cons_ok {ε : Type*} {σ β : Type} {α : Type*}
    {f : σ → List α → Except ε (σ × List β)} {s s' s'' : σ} {c : List α} {cs : List (List α)}
    {out outs : List β} (h : f s c = .ok (s', out)) (hs : feedAll f s' cs = .ok (s'', outs)) :
    feedAll f s (c :: cs) = .ok (s'', out ++ outs) := by
  rw [feedAll, h]
  simp only [bind, Except.bind, hs]
  rfl

/-- The other way round: a run that succeeds succeeded batch by batch. -/
theorem feedAll_cons_inv {ε : Type*} {σ β : Type} {α : Type*}
    {f : σ → List α → Except ε (σ × List β)} {s s'' : σ} {c : List α} {cs : List (List α)}
    {all : List β} (h : feedAll f s (c :: cs) = .ok (s'', all)) :
    ∃ s' out outs, f s c = .ok (s', out) ∧ feedAll f s' cs = .ok (s'', outs) ∧
      all = out ++ outs := by
  rw [feedAll] at h
  rcases hc : f s c with e | ⟨s', out⟩
  · rw [hc] at h
    cases h
  · rw [hc] at h
    simp only [bind, Except.bind] at h
    rcases hcs : feedAll f s' cs with e | ⟨t, outs⟩
    · rw [hcs] at h
      cases h
    · rw [hcs] at h
      cases h
      exact ⟨s', out, outs, rfl, hcs, rfl⟩
