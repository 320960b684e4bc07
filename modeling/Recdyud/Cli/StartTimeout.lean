import Recdyud.Cli.Pipeline

/-!
# The start timeout

As long as nothing has come out, `process` reads the clock once a call. So a run is a list of
chunks, each with the reading of the clock at its call, and `processAll` gives what every call
returns.

The timer runs from the first call, not from the first packet. Three things must fall together for
it to strike: nothing has come out so far, the timeout is set, and the call is not the first one.
`process_of_silent` computes the call for a descrambler that gives nothing back (`Silent`), and
`alive_process` what holds of every other call that does not fall back.

The time that has passed is a difference of two readings, rounded as the environment says. In floats
it can reach the timeout a little before the exact difference does.
-/

namespace Recdyud

variable {δ : Type}

/-- The same descrambler, while the clock reads `now`. -/
def Environment.clockAt (E : Environment δ) (now : ℚ) : Environment δ :=
  { E with clock := fun d ↦ (now, d) }

/-- A descrambler whose `put` and `get` succeed and return no data, `held d` being the input it
holds. What it holds it gives back. -/
structure Silent (E : Environment δ) (held : δ → Bytes) : Prop where
  put : ∀ d c, (E.put d c).1 = .ok ()
  held_put : ∀ d c, held (E.put d c).2 = held d ++ c
  get : ∀ d, (E.get d).1 = .ok []
  held_get : ∀ d, held (E.get d).2 = held d
  withdraw : ∀ d, (E.withdraw d).1 = .ok (held d)

namespace Pipeline

variable (E : Environment δ)

/-- A call of `process` with a chunk and the reading of the clock. -/
def processAt (s : Pipeline × δ) (x : Bytes × ℚ) : (Pipeline × δ) × Bytes :=
  s.1.process (E.clockAt x.2) s.2 x.1

/-- The calls one after the other: the state behind the last, and what each returned. -/
def processAll (s : Pipeline × δ) : List (Bytes × ℚ) → (Pipeline × δ) × List Bytes
  | [] => (s, [])
  | x :: xs =>
    ((processAll (processAt E s x).1 xs).1,
      (processAt E s x).2 :: (processAll (processAt E s x).1 xs).2)

variable {E} {held : δ → Bytes}

theorem processAll_append (s : Pipeline × δ) (xs ys : List (Bytes × ℚ)) :
    processAll E s (xs ++ ys) = ((processAll E (processAll E s xs).1 ys).1,
      (processAll E s xs).2 ++ (processAll E (processAll E s xs).1 ys).2) := by
  induction xs generalizing s with
  | nil => rfl
  | cons x xs ih => rw [List.cons_append, processAll, ih, processAll, List.cons_append]

theorem processAll_of_no_descrambler {self : Pipeline} (h : self.descrambler = false) (d : δ)
    (xs : List (Bytes × ℚ)) :
    processAll E (self, d) xs = ((self, d), xs.map Prod.fst) := by
  induction xs with
  | nil => rfl
  | cons x xs ih =>
    have hstep : processAt E (self, d) x = ((self, d), x.1) := process_of_no_descrambler h d x.1
    rw [processAll, hstep, ih]
    rfl

/-! ## A descrambler that gives nothing back -/

/-- A pipeline that waits: nothing has come out, and the timer runs from `first` on. -/
def waiting (startTimeout : ℚ) (first : Option ℚ) : Pipeline :=
  { descrambler := true, startTimeout, firstInput := first }

variable {T t₀ : ℚ}

/-- A call while waiting: what is held grows by the chunk, and only the timer decides. -/
theorem processAt_waiting (hE : Silent E held) (hT : 0 < T) (first : Option ℚ) (d : δ)
    (x : Bytes × ℚ) : ∃ d', held d' = held d ++ x.1
      ∧ processAt E (waiting T first, d) x
        = (waiting T first).checkStart (E.clockAt x.2) d' x.1 [] := by
  refine ⟨(E.get (E.put d x.1).2).2, by rw [hE.held_get, hE.held_put], ?_⟩
  have hput : E.put d x.1 = (.ok (), (E.put d x.1).2) := Prod.ext (hE.put d x.1) rfl
  have hget : E.get (E.put d x.1).2 = (.ok [], (E.get (E.put d x.1).2).2) :=
    Prod.ext (hE.get _) rfl
  rw [processAt, process, waiting, if_pos rfl]
  dsimp only [Environment.clockAt]
  rw [hput]
  dsimp only
  rw [hget]
  dsimp only
  rw [if_neg (not_not.mpr rfl), if_pos ⟨rfl, hT⟩]

theorem processAt_first (hE : Silent E held) (hT : 0 < T) (d : δ) (x : Bytes × ℚ) :
    ∃ d', held d' = held d ++ x.1
      ∧ processAt E (waiting T none, d) x = ((waiting T (some x.2), d'), []) := by
  obtain ⟨d', hheld, hcall⟩ := processAt_waiting hE hT none d x
  exact ⟨d', hheld, hcall⟩

theorem processAt_early (hE : Silent E held) (hT : 0 < T) (d : δ) {x : Bytes × ℚ}
    (hearly : E.rounding.sub x.2 t₀ < T) : ∃ d', held d' = held d ++ x.1
      ∧ processAt E (waiting T (some t₀), d) x = ((waiting T (some t₀), d'), []) := by
  obtain ⟨d', hheld, hcall⟩ := processAt_waiting hE hT (some t₀) d x
  refine ⟨d', hheld, hcall.trans ?_⟩
  exact if_neg (not_le.mpr hearly)

theorem processAt_late (hE : Silent E held) (hT : 0 < T) (d : δ) {x : Bytes × ℚ}
    (hlate : T ≤ E.rounding.sub x.2 t₀) : ∃ self d', self.descrambler = false
      ∧ processAt E (waiting T (some t₀), d) x = ((self, d'), held d ++ x.1) := by
  obtain ⟨d', hheld, hcall⟩ := processAt_waiting hE hT (some t₀) d x
  have hwithdraw : withdrawOr (E.clockAt x.2) d' x.1 = (held d', (E.withdraw d').2) := by
    have hok : E.withdraw d' = (.ok (held d'), (E.withdraw d').2) := Prod.ext (hE.withdraw d') rfl
    rw [withdrawOr, Environment.clockAt]
    dsimp only
    rw [hok]
  have hstrike : (waiting T (some t₀)).checkStart (E.clockAt x.2) d' x.1 []
      = (waiting T (some t₀)).fallBack (E.clockAt x.2) (E.withdraw d').2 (held d') := by
    have hcheck : (waiting T (some t₀)).checkStart (E.clockAt x.2) d' x.1 []
        = (waiting T (some t₀)).fallBack (E.clockAt x.2)
            (withdrawOr (E.clockAt x.2) d' x.1).2 (withdrawOr (E.clockAt x.2) d' x.1).1 :=
      if_pos hlate
    rw [hcheck, hwithdraw]
  rw [hcall, hstrike, ← hheld]
  exact ⟨_, _, rfl, rfl⟩

theorem processAll_early (hE : Silent E held) (hT : 0 < T) (d : δ) {xs : List (Bytes × ℚ)}
    (hearly : ∀ x ∈ xs, E.rounding.sub x.2 t₀ < T) : ∃ d', held d' = held d ++ xs.flatMap Prod.fst
      ∧ processAll E (waiting T (some t₀), d) xs
        = ((waiting T (some t₀), d'), xs.map fun _ ↦ []) := by
  induction xs generalizing d with
  | nil => exact ⟨d, (List.append_nil _).symm, rfl⟩
  | cons x xs ih =>
    obtain ⟨d₁, hheld₁, hcall⟩ := processAt_early hE hT d (hearly x List.mem_cons_self)
    obtain ⟨d₂, hheld₂, hrest⟩ := ih d₁ fun y hy ↦ hearly y (List.mem_cons_of_mem _ hy)
    refine ⟨d₂, ?_, ?_⟩
    · rw [hheld₂, hheld₁, List.flatMap_cons, List.append_assoc]
    · rw [processAll, hcall, hrest]
      rfl

/-- A run in which the timer does not strike. -/
theorem outputs_early (hE : Silent E held) (hT : 0 < T) (d : δ) {x₀ : Bytes × ℚ}
    {early : List (Bytes × ℚ)} (hearly : ∀ x ∈ early, E.rounding.sub x.2 x₀.2 < T) :
    (processAll E (waiting T none, d) (x₀ :: early)).2 = [] :: early.map fun _ ↦ [] := by
  obtain ⟨d₁, -, hfirst⟩ := processAt_first hE hT d x₀
  obtain ⟨d₂, -, hrun⟩ := processAll_early hE hT d₁ hearly
  rw [processAll, hfirst, hrun]

/-- A run in which it strikes at the chunk `x`. -/
theorem outputs_late (hE : Silent E held) (hT : 0 < T) {d : δ} (hd : held d = [])
    {x₀ x : Bytes × ℚ} {early : List (Bytes × ℚ)}
    (hearly : ∀ x ∈ early, E.rounding.sub x.2 x₀.2 < T) (hlate : T ≤ E.rounding.sub x.2 x₀.2)
    (later : List (Bytes × ℚ)) :
    (processAll E (waiting T none, d) (x₀ :: (early ++ x :: later))).2
      = ([] :: early.map fun _ ↦ [])
        ++ (x₀.1 ++ early.flatMap Prod.fst ++ x.1) :: later.map Prod.fst := by
  obtain ⟨d₁, hheld₁, hfirst⟩ := processAt_first hE hT d x₀
  obtain ⟨d₂, hheld₂, hrun⟩ := processAll_early hE hT d₁ hearly
  obtain ⟨self, d₃, hdead, hstrike⟩ := processAt_late hE hT d₂ hlate
  rw [hd, List.nil_append] at hheld₁
  rw [processAll, hfirst, processAll_append, hrun, processAll, hstrike, hheld₂, hheld₁,
    processAll_of_no_descrambler hdead]
  rfl

/-! ## When the timer does not count -/

/-- What a call does while there is a descrambler: fall back on an error, hand on what has come
out, or, when nothing has, look at the timer. -/
theorem process_cases {self : Pipeline} (hself : self.descrambler = true) (d : δ)
    (packets : Bytes) :
    (((∃ e, (E.put d packets).1 = .error e) ∨ ∃ e, (E.get (E.put d packets).2).1 = .error e)
      ∧ (self.process E d packets).1.1.descrambler = false)
    ∨ (∃ d' out, out ≠ []
      ∧ self.process E d packets = (({ self with producing := true }, d'), out))
    ∨ ∃ d', self.process E d packets
      = if self.producing = false ∧ self.startTimeout > 0 then self.checkStart E d' packets []
        else ((self, d'), []) := by
  rw [process, if_pos hself]
  rcases hput : E.put d packets with ⟨e | _, d₁⟩
  · exact .inl ⟨.inl ⟨e, rfl⟩, descrambler_recover self d₁ packets⟩
  · dsimp only
    rcases hget : E.get d₁ with ⟨e | out, d₂⟩
    · exact .inl ⟨.inr ⟨e, rfl⟩, descrambler_recover self d₂ packets⟩
    · dsimp only
      by_cases hout : out = []
      · subst hout
        exact .inr (.inr ⟨d₂, if_neg (not_not.mpr rfl)⟩)
      · rw [if_pos hout]
        exact .inr (.inl ⟨d₂, out, hout, rfl⟩)

theorem alive_checkStart {self : Pipeline} {d : δ} {packets : Bytes}
    (halive : (self.checkStart E d packets []).1.1.descrambler = true) :
    (self.checkStart E d packets []).1.1.startTimeout = self.startTimeout
    ∧ (self.checkStart E d packets []).2 = [] := by
  rw [checkStart] at halive ⊢
  cases hfirst : self.firstInput with
  | none => exact ⟨rfl, rfl⟩
  | some first =>
    rw [hfirst] at halive
    dsimp only at halive ⊢
    split at halive
    · rw [descrambler_fallBack] at halive
      exact absurd halive Bool.false_ne_true
    · rename_i hlate
      rw [if_neg hlate]
      exact ⟨rfl, rfl⟩

/-- A call that leaves the descrambler in place: the timeout stays what it is, and what comes out
is noted. -/
theorem alive_process {self : Pipeline} {d : δ} {packets : Bytes}
    (halive : (self.process E d packets).1.1.descrambler = true) :
    self.descrambler = true
    ∧ (self.process E d packets).1.1.startTimeout = self.startTimeout
    ∧ (self.producing = true ∨ (self.process E d packets).2 ≠ [] →
      (self.process E d packets).1.1.producing = true) := by
  have hself : self.descrambler = true := by
    by_contra hdead
    rw [process_of_no_descrambler (Bool.eq_false_of_not_eq_true hdead)] at halive
    exact hdead halive
  refine ⟨hself, ?_⟩
  rcases process_cases (E := E) hself d packets with ⟨-, hdead⟩ | ⟨d', out, -, hcall⟩ | ⟨d', hcall⟩
  · rw [hdead] at halive
    exact absurd halive Bool.false_ne_true
  · rw [hcall]
    exact ⟨rfl, fun _ ↦ rfl⟩
  · rw [hcall] at halive ⊢
    split at halive
    · rename_i hstart
      obtain ⟨htimeout, hout⟩ := alive_checkStart halive
      rw [if_pos hstart]
      refine ⟨htimeout, ?_⟩
      rintro (hproducing | hout')
      · rw [hstart.1] at hproducing
        exact absurd hproducing Bool.false_ne_true
      · exact absurd hout hout'
    · rename_i hstart
      rw [if_neg hstart]
      refine ⟨rfl, ?_⟩
      rintro (hproducing | hout')
      · exact hproducing
      · exact absurd rfl hout'

/-- When something has come out, or no timeout is set, only an error leads to a fallback. -/
theorem error_of_fallback {self : Pipeline} {d : δ} {packets : Bytes}
    (hself : self.descrambler = true) (hoff : self.producing = true ∨ self.startTimeout ≤ 0)
    (hdead : (self.process E d packets).1.1.descrambler = false) :
    (∃ e, (E.put d packets).1 = .error e) ∨ ∃ e, (E.get (E.put d packets).2).1 = .error e := by
  rcases process_cases (E := E) hself d packets with ⟨herror, -⟩ | ⟨d', out, -, hcall⟩ | ⟨d', hcall⟩
  · exact herror
  · rw [hcall, hself] at hdead
    exact absurd hdead.symm Bool.false_ne_true
  · have hstart : ¬(self.producing = false ∧ self.startTimeout > 0) := by
      rintro ⟨hproducing, hpos⟩
      rcases hoff with hoff | hoff
      · rw [hproducing] at hoff
        exact Bool.false_ne_true hoff
      · exact absurd hpos (not_lt.mpr hoff)
    rw [hcall, if_neg hstart, hself] at hdead
    exact absurd hdead.symm Bool.false_ne_true

theorem alive_processAll {s : Pipeline × δ} {xs : List (Bytes × ℚ)}
    (halive : (processAll E s xs).1.1.descrambler = true) :
    (processAll E s xs).1.1.startTimeout = s.1.startTimeout
    ∧ (s.1.producing = true ∨ (∃ out ∈ (processAll E s xs).2, out ≠ []) →
      (processAll E s xs).1.1.producing = true) := by
  induction xs generalizing s with
  | nil =>
    refine ⟨rfl, ?_⟩
    rintro (hproducing | ⟨out, hout, -⟩)
    · exact hproducing
    · exact absurd hout List.not_mem_nil
  | cons x xs ih =>
    have hmid : (processAt E s x).1.1.descrambler = true := by
      by_contra hdead
      rw [processAll, processAll_of_no_descrambler (Bool.eq_false_of_not_eq_true hdead)] at halive
      exact hdead halive
    obtain ⟨htimeout, hproducing⟩ := ih halive
    obtain ⟨-, htimeout₁, hproducing₁⟩ := alive_process hmid
    refine ⟨htimeout.trans htimeout₁, ?_⟩
    rintro (hs | ⟨out, hout, hne⟩)
    · exact hproducing (.inl (hproducing₁ (.inl hs)))
    · rcases List.mem_cons.mp hout with rfl | hout
      · exact hproducing (.inl (hproducing₁ (.inr hne)))
      · exact hproducing (.inr ⟨out, hout, hne⟩)

/-! ## The two together -/

theorem getElem?_of_mem_take {α : Type*} {l : List α} {n : ℕ} {a : α} (h : a ∈ l.take n) :
    ∃ j < n, l[j]? = some a := by
  obtain ⟨j, hj, rfl⟩ := List.mem_take_iff_getElem.mp h
  exact ⟨j, by omega, List.getElem?_eq_getElem _⟩

/-- The calls up to an early one return nothing. -/
theorem outputs_of_early (hE : Silent E held) (hT : 0 < T) (d : δ) {x₀ : Bytes × ℚ}
    {rest : List (Bytes × ℚ)} {i : ℕ} (hi : i ≤ rest.length)
    (hearly : ∀ x ∈ rest.take i, E.rounding.sub x.2 x₀.2 < T) :
    (processAll E (waiting T none, d) (x₀ :: rest)).2[i]? = some [] := by
  have hsplit : x₀ :: rest = (x₀ :: rest.take i) ++ rest.drop i := by
    rw [List.cons_append, List.take_append_drop]
  have hlen : i < ([] :: (rest.take i).map fun _ ↦ ([] : Bytes)).length := by
    rw [List.length_cons, List.length_map, List.length_take, Nat.min_eq_left hi]
    exact Nat.lt_succ_self i
  rw [hsplit, processAll_append, outputs_early hE hT d hearly, List.getElem?_append_left hlen,
    ← List.map_cons (f := fun _ ↦ ([] : Bytes)) (a := x₀), List.getElem?_map,
    List.getElem?_eq_getElem (by simpa using hlen), Option.map_some]

/-- The calls up to a late one, when no call before it is late. -/
theorem outputs_of_late (hE : Silent E held) (hT : 0 < T) {d : δ} (hd : held d = [])
    {x₀ x : Bytes × ℚ} {rest : List (Bytes × ℚ)} {n : ℕ} (hx : rest[n]? = some x)
    (hearly : ∀ y ∈ rest.take n, E.rounding.sub y.2 x₀.2 < T)
    (hlate : T ≤ E.rounding.sub x.2 x₀.2) :
    (processAll E (waiting T none, d) (x₀ :: rest)).2
      = List.replicate (n + 1) []
        ++ ((x₀ :: rest).take (n + 2)).flatMap Prod.fst
        :: ((x₀ :: rest).drop (n + 2)).map Prod.fst := by
  obtain ⟨hn, rfl⟩ := List.getElem?_eq_some_iff.mp hx
  have hsplit : rest = rest.take n ++ rest[n] :: rest.drop (n + 1) := by
    rw [← List.drop_eq_getElem_cons hn, List.take_append_drop]
  have hrun := outputs_late hE hT hd hearly hlate (rest.drop (n + 1))
  rw [← hsplit] at hrun
  have hquiet : (rest.take n).map (fun _ ↦ ([] : Bytes)) = List.replicate n [] := by
    rw [List.map_const', List.length_take, Nat.min_eq_left hn.le]
  have htake : ((x₀ :: rest).take (n + 2)).flatMap Prod.fst
      = x₀.1 ++ (rest.take n).flatMap Prod.fst ++ rest[n].1 := by
    rw [List.take_succ_cons, List.take_succ_eq_append_getElem hn, List.flatMap_cons,
      List.flatMap_append, List.flatMap_singleton, List.append_assoc]
  rw [hrun, hquiet, htake, List.drop_succ_cons]
  rfl

/-- The readings do not decrease, so a call before an early one is early. -/
theorem early_of_early {xs : List (Bytes × ℚ)} (hmono : xs.Pairwise fun x y ↦ x.2 ≤ y.2)
    {j i : ℕ} (hji : j ≤ i) {x y : Bytes × ℚ} (hx : xs[j]? = some x) (hy : xs[i]? = some y)
    (hearly : E.rounding.sub y.2 t₀ < T) : E.rounding.sub x.2 t₀ < T := by
  obtain ⟨hj, rfl⟩ := List.getElem?_eq_some_iff.mp hx
  obtain ⟨hi, rfl⟩ := List.getElem?_eq_some_iff.mp hy
  have hle : xs[j].2 ≤ xs[i].2 := by
    rcases Nat.lt_or_eq_of_le hji with hlt | rfl
    · exact List.pairwise_iff_getElem.mp hmono _ _ hj hi hlt
    · exact le_rfl
  exact (E.rounding.sub_mono hle t₀).trans_lt hearly

/-- After any run that has given something back, or without a timeout, only an error of the
descrambler leads to a fallback. -/
theorem error_of_fallback_run {d d' : δ} {self : Pipeline} {xs : List (Bytes × ℚ)}
    (hrun : (processAll E (waiting T none, d) xs).1 = (self, d'))
    (hself : self.descrambler = true)
    (hoff : T ≤ 0 ∨ ∃ out ∈ (processAll E (waiting T none, d) xs).2, out ≠ []) {x : Bytes × ℚ}
    (hdead : (processAt E (self, d') x).1.1.descrambler = false) :
    (∃ e, (E.put d' x.1).1 = .error e) ∨ ∃ e, (E.get (E.put d' x.1).2).1 = .error e := by
  have halive := @alive_processAll _ E (waiting T none, d) xs
  rw [hrun] at halive
  obtain ⟨htimeout, hproducing⟩ := halive hself
  refine error_of_fallback (E := E.clockAt x.2) hself ?_ hdead
  rcases hoff with hoff | hout
  · exact .inr (htimeout.trans_le hoff)
  · exact .inl (hproducing (.inr hout))

/-- **The start timeout.** -/
theorem outputs_startTimeout (E : Environment δ) (d : δ) (T : ℚ) (xs : List (Bytes × ℚ)) :
    (∀ held, Silent E held → held d = [] → 0 < T → (xs.Pairwise fun x y ↦ x.2 ≤ y.2) →
      ∀ x₀ ∈ xs.head?,
        (∀ i x, xs[i]? = some x → i = 0 ∨ E.rounding.sub x.2 x₀.2 < T →
          (processAll E (waiting T none, d) xs).2[i]? = some [])
        ∧ ∀ i x, xs[i]? = some x → i ≠ 0 → T ≤ E.rounding.sub x.2 x₀.2 →
          (∀ j y, j < i → xs[j]? = some y → j = 0 ∨ E.rounding.sub y.2 x₀.2 < T) →
          (processAll E (waiting T none, d) xs).2
            = List.replicate i [] ++ (xs.take (i + 1)).flatMap Prod.fst
              :: (xs.drop (i + 1)).map Prod.fst
          ∧ (processAll E (waiting T none, d) xs).2.flatten = xs.flatMap Prod.fst)
    ∧ ∀ x self d', (processAll E (waiting T none, d) xs).1 = (self, d') →
      self.descrambler = true →
      T ≤ 0 ∨ (∃ out ∈ (processAll E (waiting T none, d) xs).2, out ≠ []) →
      (processAt E (self, d') x).1.1.descrambler = false →
        (∃ e, (E.put d' x.1).1 = .error e) ∨ ∃ e, (E.get (E.put d' x.1).2).1 = .error e := by
  constructor
  · rintro held hE hd hT hmono x₀ hx₀
    cases xs with
    | nil => exact absurd hx₀ (by simp)
    | cons x rest =>
    obtain rfl : x₀ = x := (Option.some.inj hx₀).symm
    constructor
    · rintro i y hy hearly
      obtain ⟨hlen, -⟩ := List.getElem?_eq_some_iff.mp hy
      refine outputs_of_early hE hT d (Nat.le_of_lt_succ hlen) fun z hz ↦ ?_
      obtain ⟨j, hj, hz⟩ := getElem?_of_mem_take hz
      have hz' : (x₀ :: rest)[j + 1]? = some z := hz
      exact early_of_early hmono (Nat.succ_le_of_lt hj) hz' hy
        (hearly.resolve_left (Nat.ne_zero_of_lt hj))
    · rintro i y hy hi hlate hbefore
      obtain ⟨n, rfl⟩ := Nat.exists_eq_succ_of_ne_zero hi
      have hy' : rest[n]? = some y := hy
      have hearly : ∀ z ∈ rest.take n, E.rounding.sub z.2 x₀.2 < T := by
        rintro z hz
        obtain ⟨j, hj, hz⟩ := getElem?_of_mem_take hz
        exact (hbefore (j + 1) z (Nat.succ_lt_succ hj) hz).resolve_left (Nat.succ_ne_zero j)
      have hout := outputs_of_late hE hT hd hy' hearly hlate
      refine ⟨hout, ?_⟩
      rw [hout, List.flatten_append, List.flatten_cons, ← List.flatMap_def, ← List.flatMap_append,
        List.take_append_drop]
      simp
  · rintro x self d' hrun hself hoff hdead
    exact error_of_fallback_run hrun hself hoff hdead

/-- A descrambler that never sees its tables: it holds all there is. -/
def holdingBack : Environment Bytes where
  put held c := (.ok (), held ++ c)
  get held := (.ok [], held)
  withdraw held := (.ok held, [])
  flush held := (.ok held, [])
  close _ := []
  clock held := (0, held)
  rounding := BinaryFormat.binary64.rounding

theorem outputs_startTimeout_holdingBack :
    (processAll holdingBack (waiting 5 none, []) [([1], 0), ([2], 19 / 4), ([3], 5), ([4], 5)]).2
      = [[], [], [1, 2, 3], [4]] := by
  have hsilent : Silent holdingBack id := ⟨fun _ _ ↦ rfl, fun _ _ ↦ rfl, fun _ ↦ rfl, fun _ ↦ rfl,
    fun _ ↦ rfl⟩
  obtain ⟨hrun, -⟩ := outputs_startTimeout holdingBack [] 5
    [([1], 0), ([2], 19 / 4), ([3], 5), ([4], 5)]
  obtain ⟨-, hlate⟩ := hrun id hsilent rfl (by norm_num) (by norm_num) _ rfl
  refine (hlate 2 _ rfl (by decide) (by decide +kernel) ?_).1
  rintro j y hj hy
  interval_cases j
  · exact .inl rfl
  · obtain rfl := Option.some.inj hy
    exact .inr (by decide +kernel)

end Pipeline

end Recdyud
