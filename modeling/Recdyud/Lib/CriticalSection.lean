import Recdyud.Lib.Machine

/-!
# Code under a lock

Threads share an object that is reached under a lock alone. What a thread does to it while it holds
the lock takes several atomic steps, and the steps of the threads interleave; `Threads` is the state
of all of them, the lock a variable that one of them may take while nobody has it.

## One after the other

What comes of it is what comes of the same sections made one after the other, in the order of the
log: `Guarded` is the invariant, `guarded_of_run` the theorem. The order is that of the sections
themselves: the log only grows (`log_prefix_act`), and what a thread gets back is its part of it.
-/

/-- Code under a lock, for a request, as atomic steps on the object. -/
structure Section (σ α κ ρ : Type*) where
  enter : α → κ
  step : κ → σ → (κ ⊕ ρ) × σ

namespace Section

variable {ι σ α κ ρ : Type*} (C : Section σ α κ ρ)

/-- Steps that do not end the section. -/
inductive Reaches : κ → σ → κ → σ → Prop where
  | refl (k : κ) (s : σ) : Reaches k s k s
  | tail {k k' k'' : κ} {s s' s'' : σ} (h : Reaches k s k' s')
    (hstep : C.step k' s' = (.inl k'', s'')) : Reaches k s k'' s''

/-- What the steps keep holds wherever the section comes to. -/
theorem Reaches.keeps {C : Section σ α κ ρ} {I : κ → σ → Prop} {k k' : κ} {s s' : σ}
    (hstep : ∀ k s k' s', I k s → C.step k s = (.inl k', s') → I k' s')
    (h : C.Reaches k s k' s') (hI : I k s) : I k' s' := by
  induction h with
  | refl => exact hI
  | tail _ hlast ih => exact hstep _ _ _ _ (ih hI) hlast

/-- The section of a request from its first step to its last. -/
def Returns (a : α) (s : σ) (r : ρ) (s' : σ) : Prop :=
  ∃ k s₁, C.Reaches (C.enter a) s k s₁ ∧ C.step k s₁ = (.inr r, s')

/-- Sections one after the other; of each, the thread, the request and the result. -/
inductive Serial : σ → List (ι × α × ρ) → σ → Prop where
  | nil (s : σ) : Serial s [] s
  | concat {s s₁ s₂ : σ} {log : List (ι × α × ρ)} {t : ι} {a : α} {r : ρ}
    (h : Serial s log s₁) (hreturns : C.Returns a s₁ r s₂) : Serial s (log ++ [(t, a, r)]) s₂

/-- What every section keeps is kept by sections one after the other. -/
theorem Serial.keeps {C : Section σ α κ ρ} {I : σ → Prop} {s s' : σ} {log : List (ι × α × ρ)}
    (hreturns : ∀ a s r s', I s → C.Returns a s r s' → I s') (h : C.Serial s log s') (hI : I s) :
    I s' := by
  induction h with
  | nil => exact hI
  | concat _ hlast ih => exact hreturns _ _ _ _ ih hlast

end Section

/-- Where a thread stands. -/
inductive Phase (α κ ρ : Type*) where
  | idle
  /-- It wants the lock. -/
  | waiting (a : α)
  /-- It has the lock, and is in the middle of the section. -/
  | inside (a : α) (k : κ)
  /-- The section is over, the lock not yet given back. -/
  | leaving (a : α) (r : ρ)

namespace Phase

variable {α κ ρ : Type*}

/-- The request under way. -/
def request? : Phase α κ ρ → Option α
  | .idle => none
  | .waiting a | .inside a _ | .leaving a _ => some a

/-- A section that is over, whose result the thread has not got yet. -/
def pending : Phase α κ ρ → List (α × ρ)
  | .idle | .waiting _ | .inside _ _ => []
  | .leaving a r => [(a, r)]

end Phase

/-- The object, the lock and the threads. `log` has the sections that are over, in their order, and
`returned` what each thread got back. -/
structure Threads (ι σ α κ ρ : Type*) where
  object : σ
  lock : Option ι := none
  phase : ι → Phase α κ ρ := fun _ ↦ .idle
  log : List (ι × α × ρ) := []
  returned : ι → List (α × ρ) := fun _ ↦ []

/-- A step of a thread. -/
inductive ThreadAction (ι α : Type*) where
  | request (t : ι) (a : α)
  | acquire (t : ι)
  /-- One atomic step of the section. -/
  | step (t : ι)
  | release (t : ι)

namespace Threads

variable {ι σ α κ ρ : Type*} [DecidableEq ι] (C : Section σ α κ ρ)

/-- The thread goes on to a phase. -/
def goTo (s : Threads ι σ α κ ρ) (t : ι) (p : Phase α κ ρ) : Threads ι σ α κ ρ :=
  { s with phase := Function.update s.phase t p }

/-- The step of a thread, if it can make it. -/
def act (s : Threads ι σ α κ ρ) : ThreadAction ι α → Option (Threads ι σ α κ ρ)
  | .request t a =>
    match s.phase t with
    | .idle => some (s.goTo t (.waiting a))
    | _ => none
  | .acquire t =>
    match s.phase t, s.lock with
    | .waiting a, none => some { s.goTo t (.inside a (C.enter a)) with lock := some t }
    | _, _ => none
  | .step t =>
    match s.phase t with
    | .inside a k =>
      match C.step k s.object with
      | (.inl k', object) => some { s.goTo t (.inside a k') with object }
      | (.inr r, object) =>
        some { s.goTo t (.leaving a r) with object, log := s.log ++ [(t, a, r)] }
    | _ => none
  | .release t =>
    match s.phase t with
    | .leaving a r =>
      some { s.goTo t .idle with
        lock := none, returned := Function.update s.returned t (s.returned t ++ [(a, r)]) }
    | _ => none

end Threads

/-- Threads that share an object under a lock. -/
def threadMachine {ι σ α κ ρ : Type*} [DecidableEq ι] (C : Section σ α κ ρ) (object : σ) :
    Machine (Threads ι σ α κ ρ) (ThreadAction ι α) where
  init := { object }
  step s a := s.act C a

/-! ## The invariant -/

section Invariant

variable {ι σ α κ ρ : Type*} [DecidableEq ι] (C : Section σ α κ ρ)

/-- The part of the log that is one thread's. -/
def logOf (t : ι) (log : List (ι × α × ρ)) : List (α × ρ) :=
  (log.filter fun x ↦ x.1 = t).map Prod.snd

/-- Where a thread may stand, when `base` is the object as the log left it: `held` says whether the
thread has the lock. -/
def Standing (base object : σ) (held : Prop) : Phase α κ ρ → Prop
  | .idle | .waiting _ => ¬held
  | .inside a k => held ∧ C.Reaches (C.enter a) base k object
  | .leaving _ _ => held ∧ object = base

/-- The sections in the log, made one after the other, lead to `base`; only the thread with the
lock has gone on from there. -/
structure Guarded (start base : σ) (s : Threads ι σ α κ ρ) : Prop where
  serial : C.Serial start s.log base
  free : s.lock = none → s.object = base
  standing : ∀ t, Standing C base s.object (s.lock = some t) (s.phase t)
  returned : ∀ t, s.returned t ++ (s.phase t).pending = logOf t s.log

variable {C}

theorem logOf_concat (t t' : ι) (a : α) (r : ρ) (log : List (ι × α × ρ)) :
    logOf t (log ++ [(t', a, r)]) = logOf t log ++ if t' = t then [(a, r)] else [] := by
  rw [logOf, List.filter_append, List.map_append, logOf]
  by_cases h : t' = t
  · simp [h]
  · simp [h]

namespace Standing

variable {base base' object object' : σ} {held held' : Prop} {p : Phase α κ ρ}

/-- A thread without the lock stands where the object does not matter. -/
theorem of_not_held (h : Standing C base object held p) (hheld : ¬held) (hheld' : ¬held') :
    Standing C base' object' held' p := by
  cases p with
  | idle => exact hheld'
  | waiting a => exact hheld'
  | inside a k => exact absurd h.1 hheld
  | leaving a r => exact absurd h.1 hheld

theorem pending_of_not_held (h : Standing C base object held p) (hheld : ¬held) :
    p.pending = [] := by
  cases p with
  | idle => rfl
  | waiting a => rfl
  | inside a k => rfl
  | leaving a r => exact absurd h.1 hheld

end Standing

namespace Guarded

variable {start base : σ} {s s' : Threads ι σ α κ ρ} {t : ι} {a : α} {k k' : κ} {r : ρ}
variable {object : σ}

theorem init (start : σ) :
    Guarded C start start ({ object := start } : Threads ι σ α κ ρ) where
  serial := .nil start
  free _ := rfl
  standing _ := nofun
  returned _ := rfl

/-- **At most one thread has the lock**, and no other one is in the middle of a section. -/
theorem eq_of_inside (h : Guarded C start base s) {t' : ι} {a' : α}
    (ht : s.phase t = .inside a k) (ht' : s.phase t' = .inside a' k') : t = t' := by
  have hheld := h.standing t
  have hheld' := h.standing t'
  rw [ht] at hheld
  rw [ht'] at hheld'
  exact Option.some.inj (hheld.1.symm.trans hheld'.1)

/-- The other threads stand where they stood, since the thread that moves has the lock. -/
theorem standing_of_ne (h : Guarded C start base s) {base' object' : σ} {lock : Option ι}
    (hlock : s.lock = none ∨ s.lock = some t) (hlock' : lock = none ∨ lock = some t) {t' : ι}
    (hne : t' ≠ t) : Standing C base' object' (lock = some t') (s.phase t') := by
  refine (h.standing t').of_not_held ?_ ?_
  · rcases hlock with hlock | hlock
    · simp [hlock]
    · simpa [hlock] using hne.symm
  · rcases hlock' with hlock | hlock
    · simp [hlock]
    · simpa [hlock] using hne.symm

theorem request (h : Guarded C start base s) (ht : s.phase t = .idle) (a : α) :
    Guarded C start base (s.goTo t (.waiting a)) where
  serial := h.serial
  free := h.free
  standing := by
    have hheld := h.standing t
    rw [ht] at hheld
    exact (Function.forall_update_iff s.phase _).mpr ⟨hheld, fun t' _ ↦ h.standing t'⟩
  returned := by
    have hreturned := h.returned t
    rw [ht] at hreturned
    exact (Function.forall_update_iff s.phase fun t' p ↦
      s.returned t' ++ p.pending = logOf t' s.log).mpr ⟨hreturned, fun t' _ ↦ h.returned t'⟩

theorem acquire (h : Guarded C start base s) (ht : s.phase t = .waiting a)
    (hlock : s.lock = none) :
    Guarded C start base { s.goTo t (.inside a (C.enter a)) with lock := some t } where
  serial := h.serial
  free := nofun
  standing := by
    refine (Function.forall_update_iff s.phase _).mpr ⟨⟨rfl, ?_⟩, fun t' hne ↦ ?_⟩
    · rw [← h.free hlock]
      exact .refl _ _
    · exact h.standing_of_ne (.inl hlock) (.inr rfl) hne
  returned := by
    have hreturned := h.returned t
    rw [ht] at hreturned
    exact (Function.forall_update_iff s.phase fun t' p ↦
      s.returned t' ++ p.pending = logOf t' s.log).mpr ⟨hreturned, fun t' _ ↦ h.returned t'⟩

/-- A step in the middle of the section. -/
theorem inside (h : Guarded C start base s) (ht : s.phase t = .inside a k)
    (hstep : C.step k s.object = (.inl k', object)) :
    Guarded C start base { s.goTo t (.inside a k') with object } := by
  obtain ⟨hheld, hreaches⟩ : s.lock = some t ∧ C.Reaches (C.enter a) base k s.object := by
    have := h.standing t
    rwa [ht] at this
  refine ⟨h.serial, fun hfree ↦ ?_, ?_, ?_⟩
  · rw [show s.lock = none from hfree] at hheld
    cases hheld
  · exact (Function.forall_update_iff s.phase _).mpr
      ⟨⟨hheld, hreaches.tail hstep⟩, fun t' hne ↦ h.standing_of_ne (.inr hheld) (.inr hheld) hne⟩
  · have hreturned := h.returned t
    rw [ht] at hreturned
    exact (Function.forall_update_iff s.phase fun t' p ↦
      s.returned t' ++ p.pending = logOf t' s.log).mpr ⟨hreturned, fun t' _ ↦ h.returned t'⟩

/-- The last step of the section: it goes into the log. -/
theorem last (h : Guarded C start base s) (ht : s.phase t = .inside a k)
    (hstep : C.step k s.object = (.inr r, object)) :
    Guarded C start object
      { s.goTo t (.leaving a r) with object, log := s.log ++ [(t, a, r)] } := by
  obtain ⟨hheld, hreaches⟩ : s.lock = some t ∧ C.Reaches (C.enter a) base k s.object := by
    have := h.standing t
    rwa [ht] at this
  refine ⟨h.serial.concat ⟨k, s.object, hreaches, hstep⟩, fun _ ↦ rfl, ?_, ?_⟩
  · exact (Function.forall_update_iff s.phase _).mpr
      ⟨⟨hheld, rfl⟩, fun t' hne ↦ h.standing_of_ne (.inr hheld) (.inr hheld) hne⟩
  · refine (Function.forall_update_iff s.phase fun t' p ↦ s.returned t' ++ p.pending
      = logOf t' (s.log ++ [(t, a, r)])).mpr ⟨?_, fun t' hne ↦ ?_⟩
    · have hreturned := h.returned t
      rw [ht, Phase.pending, List.append_nil] at hreturned
      rw [logOf_concat, if_pos rfl, ← hreturned]
      rfl
    · rw [logOf_concat, if_neg hne.symm, List.append_nil]
      exact h.returned t'

theorem release (h : Guarded C start base s) (ht : s.phase t = .leaving a r) :
    Guarded C start base { s.goTo t .idle with
      lock := none, returned := Function.update s.returned t (s.returned t ++ [(a, r)]) } := by
  obtain ⟨hheld, hobject⟩ : s.lock = some t ∧ s.object = base := by
    have := h.standing t
    rwa [ht] at this
  refine ⟨h.serial, fun _ ↦ hobject, ?_, ?_⟩
  · exact (Function.forall_update_iff s.phase _).mpr
      ⟨nofun, fun t' hne ↦ h.standing_of_ne (.inr hheld) (.inl rfl) hne⟩
  · refine (Function.forall_update_iff s.phase fun t' p ↦
      Function.update s.returned t (s.returned t ++ [(a, r)]) t' ++ p.pending
        = logOf t' s.log).mpr ⟨?_, fun t' hne ↦ ?_⟩
    · have hreturned := h.returned t
      rw [ht] at hreturned
      rw [Function.update_self, ← hreturned]
      exact List.append_nil _
    · rw [Function.update_of_ne hne]
      exact h.returned t'

/-- **A step of any thread.** -/
theorem act (h : Guarded C start base s) {action : ThreadAction ι α}
    (hs : s.act C action = some s') : ∃ base', Guarded C start base' s' := by
  cases action with
  | request t a =>
    rw [Threads.act] at hs
    split at hs
    · rename_i ht
      cases hs
      exact ⟨base, h.request ht a⟩
    · cases hs
  | acquire t =>
    rw [Threads.act] at hs
    split at hs
    · rename_i ht hlock
      cases hs
      exact ⟨base, h.acquire ht hlock⟩
    · cases hs
  | step t =>
    rw [Threads.act] at hs
    split at hs
    · rename_i ht
      split at hs
      · rename_i hstep
        cases hs
        exact ⟨base, h.inside ht hstep⟩
      · rename_i hstep
        cases hs
        exact ⟨_, h.last ht hstep⟩
    · cases hs
  | release t =>
    rw [Threads.act] at hs
    split at hs
    · rename_i ht
      cases hs
      exact ⟨base, h.release ht⟩
    · cases hs

end Guarded

variable {start : σ} {s s' : Threads ι σ α κ ρ}

/-- **Sections under a lock are made one after the other**, whatever the interleaving of their
steps. -/
theorem guarded_of_run {actions : List (ThreadAction ι α)}
    (h : (threadMachine C start).Run actions s) : ∃ base, Guarded C start base s := by
  refine Machine.Run.induction (I := fun _ s ↦ ∃ base, Guarded C start base s)
    ⟨start, .init start⟩ ?_ h
  rintro actions s a s' - ⟨base, hguarded⟩ hs
  exact hguarded.act hs

/-- The log only grows. -/
theorem log_prefix_act {action : ThreadAction ι α} (hs : s.act C action = some s') :
    s.log <+: s'.log := by
  cases action with
  | request t a =>
    rw [Threads.act] at hs
    split at hs
    · obtain rfl := Option.some.inj hs
      exact List.prefix_rfl
    · cases hs
  | acquire t =>
    rw [Threads.act] at hs
    split at hs
    · obtain rfl := Option.some.inj hs
      exact List.prefix_rfl
    · cases hs
  | step t =>
    rw [Threads.act] at hs
    split at hs
    · split at hs
      · obtain rfl := Option.some.inj hs
        exact List.prefix_rfl
      · obtain rfl := Option.some.inj hs
        exact List.prefix_append _ _
    · cases hs
  | release t =>
    rw [Threads.act] at hs
    split at hs
    · obtain rfl := Option.some.inj hs
      exact List.prefix_rfl
    · cases hs

/-! ## Requests -/

/-- Every request, under way or in the log, was made. -/
structure Requested (actions : List (ThreadAction ι α)) (s : Threads ι σ α κ ρ) : Prop where
  phase : ∀ t, ∀ a ∈ (s.phase t).request?, .request t a ∈ actions
  log : ∀ x ∈ s.log, .request x.1 x.2.1 ∈ actions

namespace Requested

variable {actions : List (ThreadAction ι α)}

omit [DecidableEq ι] in
theorem mono (h : Requested actions s) {actions' : List (ThreadAction ι α)}
    (hsub : actions ⊆ actions') : Requested actions' s :=
  ⟨fun t a ha ↦ hsub (h.phase t a ha), fun x hx ↦ hsub (h.log x hx)⟩

theorem goTo (h : Requested actions s) {t : ι} {p : Phase α κ ρ}
    (hp : ∀ a ∈ p.request?, .request t a ∈ actions) : Requested actions (s.goTo t p) where
  phase := (Function.forall_update_iff s.phase fun t' p ↦
    ∀ a ∈ p.request?, ThreadAction.request t' a ∈ actions).mpr ⟨hp, fun t' _ ↦ h.phase t'⟩
  log := h.log

theorem act (h : Requested actions s) {action : ThreadAction ι α}
    (hs : s.act C action = some s') : Requested (actions ++ [action]) s' := by
  have hmono := h.mono (List.subset_append_left actions [action])
  -- a thread that goes on with its request
  have hgoTo : ∀ {t : ι} {a : α} {p : Phase α κ ρ}, a ∈ (s.phase t).request? →
      p.request? = some a → Requested (actions ++ [action]) (s.goTo t p) := by
    intro t a p ha hp
    refine hmono.goTo fun a' ha' ↦ ?_
    obtain rfl := Option.some.inj (hp.symm.trans ha')
    exact hmono.phase t a ha
  cases action with
  | request t a =>
    rw [Threads.act] at hs
    split at hs
    · cases hs
      refine hmono.goTo fun a' ha' ↦ ?_
      obtain rfl := Option.some.inj ha'
      exact List.mem_append_right _ List.mem_cons_self
    · cases hs
  | acquire t =>
    rw [Threads.act] at hs
    split at hs
    · rename_i a ht _
      cases hs
      have hnext := hgoTo (p := .inside a (C.enter a)) (by rw [ht]; rfl) rfl
      exact ⟨hnext.phase, hnext.log⟩
    · cases hs
  | step t =>
    rw [Threads.act] at hs
    split at hs
    · rename_i a k ht
      have ha : a ∈ (s.phase t).request? := by rw [ht]; rfl
      split at hs
      · rename_i k' object _
        cases hs
        have hnext := hgoTo (p := .inside a k') ha rfl
        exact ⟨hnext.phase, hnext.log⟩
      · rename_i r object _
        cases hs
        have hnext := hgoTo (p := .leaving a r) ha rfl
        refine ⟨hnext.phase, List.forall_mem_append.mpr ⟨hnext.log, ?_⟩⟩
        exact List.forall_mem_singleton.mpr (hmono.phase t a ha)
    · cases hs
  | release t =>
    rw [Threads.act] at hs
    split at hs
    · cases hs
      have hnext : Requested (actions ++ [.release t]) (s.goTo t .idle) := hmono.goTo nofun
      exact ⟨hnext.phase, hnext.log⟩
    · cases hs

end Requested

/-- What is asked of all requests holds of those in the log. -/
theorem forall_log_of_run {Q : ι → α → Prop} {actions : List (ThreadAction ι α)}
    (h : (threadMachine C start).Run actions s)
    (hrequests : ∀ t a, .request t a ∈ actions → Q t a) : ∀ x ∈ s.log, Q x.1 x.2.1 := by
  have hrequested : Requested actions s := by
    refine Machine.Run.induction (I := fun actions s ↦ Requested actions s) ?_ ?_ h
    · exact ⟨fun _ _ ↦ nofun, fun _ ↦ nofun⟩
    · exact fun _ _ _ _ _ hs hstep ↦ hs.act hstep
  exact fun x hx ↦ hrequests _ _ (hrequested.log x hx)

end Invariant
