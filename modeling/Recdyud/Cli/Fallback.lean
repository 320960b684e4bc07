import Recdyud.Cli.Pipeline

/-!
# One fallback, one close

Here the calls of the descrambler raise. `processM`, `finishM` and `recordM` are the functions of
the source with their `try` statements, in a monad of exceptions over the state they change, and
`run_processM`, `run_finishM` say that nothing gets past those statements: each call returns, and
what it returns and leaves behind is given by `process` and `finish`.

The claims about the descrambler are claims about a log of the methods called (`logged`). A log is
`Settled` when it ends with the one `close` it holds. A fallback settles it; afterwards the pipeline
calls no method any more, and `record` finds nothing left to close.
-/

namespace Recdyud

/-! ## Calls that raise -/

/-- Code around a descrambler: it may raise, and what it did before stays done. -/
abbrev Calls (δ : Type) := ExceptT B25Error (StateM (Pipeline × δ))

/-- A method of the descrambler, or of the clock. -/
def Calls.lift {δ α : Type} (method : δ → Except B25Error α × δ) : Calls δ α :=
  ExceptT.mk fun s ↦ ((method s.2).1, s.1, (method s.2).2)

namespace Calls

variable {δ α β : Type}

/-- What the code returns or raises, and what it leaves behind. -/
def exec (x : Calls δ α) (s : Pipeline × δ) : Except B25Error α × Pipeline × δ := x.run.run s

theorem exec_pure (a : α) (s : Pipeline × δ) : (pure a : Calls δ α).exec s = (.ok a, s) := rfl

theorem exec_get (s : Pipeline × δ) : (get : Calls δ _).exec s = (.ok s, s) := rfl

theorem exec_lift (method : δ → Except B25Error α × δ) (s : Pipeline × δ) :
    (Calls.lift method).exec s = ((method s.2).1, s.1, (method s.2).2) := rfl

theorem exec_bind (x : Calls δ α) (f : α → Calls δ β) (s : Pipeline × δ) :
    (x >>= f).exec s = match x.exec s with
      | (.ok a, s) => (f a).exec s
      | (.error e, s) => (.error e, s) := by
  rw [exec, ExceptT.run_bind, StateT.run_bind, exec]
  rcases x.run.run s with ⟨_ | _, s⟩ <;> rfl

theorem exec_tryCatch (x : Calls δ α) (f : B25Error → Calls δ α) (s : Pipeline × δ) :
    (tryCatch x f).exec s = match x.exec s with
      | (.ok a, s) => (.ok a, s)
      | (.error e, s) => (f e).exec s := by
  rw [exec, ExceptT.run_tryCatch, StateT.run_bind, exec]
  rcases x.run.run s with ⟨_ | _, s⟩ <;> rfl

theorem exec_tryFinally (x : Calls δ α) (f : Calls δ β) (s : Pipeline × δ) :
    (tryFinally x f).exec s = match x.exec s with
      | (r, s) => match f.exec s with
        | (.ok _, s) => (r, s)
        | (.error e, s) => (.error e, s) := by
  rcases hx : x s with ⟨_ | _, s₁⟩ <;> rcases hf : f s₁ with ⟨_ | _, s₂⟩ <;>
    simp [exec, tryFinally, tryFinally', ExceptT.run, ExceptT.mk, ExceptT.map, StateT.run,
      StateT.bind, StateT.pure, Functor.map, bind, pure, hx, hf]

end Calls

namespace Pipeline

section Raising

variable {δ : Type} (E : Environment δ)

/-- `_fall_back` -/
def fallBackM (pending : Bytes) : Calls δ Bytes := do
  if (← get).1.descrambler then
    modify fun s ↦ (s.1, E.close s.2)
    modify fun s ↦ ({ s.1 with descrambler := false }, s.2)
  return pending

/-- The `except` branch of `process`. -/
def recoverM (packets : Bytes) : Calls δ Bytes := do
  let pending ← tryCatch (Calls.lift E.withdraw) fun _ ↦ return []
  fallBackM E (if packets <:+ pending then pending else pending ++ packets)

/-- The start timeout, when nothing has come out so far. -/
def checkStartM (packets out : Bytes) : Calls δ Bytes := do
  let now ← Calls.lift fun d ↦ (.ok (E.clock d).1, (E.clock d).2)
  let self := (← get).1
  match self.firstInput with
  | none =>
    modify fun s ↦ ({ s.1 with firstInput := some now }, s.2)
    return out
  | some first =>
    if E.rounding.sub now first ≥ self.startTimeout then
      let pending ← tryCatch (Calls.lift E.withdraw) fun _ ↦ return packets
      fallBackM E pending
    else
      return out

/-- `Pipeline.process` -/
def processM (packets : Bytes) : Calls δ Bytes := do
  let self := (← get).1
  if self.descrambler then
    -- `none` leads into the `except` clause
    let taken ← tryCatch (do
      Calls.lift fun d ↦ E.put d packets
      let out ← Calls.lift E.get
      return some out) fun _ ↦ return none
    match taken with
    | none => recoverM E packets
    | some out =>
      if out ≠ [] then
        modify fun s ↦ ({ s.1 with producing := true }, s.2)
        return out
      else if self.producing = false ∧ self.startTimeout > 0 then
        checkStartM E packets out
      else
        return out
  else
    return packets

/-- `Pipeline.finish` -/
def finishM : Calls δ Bytes := do
  if (← get).1.descrambler then
    tryCatch (Calls.lift E.flush) fun _ ↦ tryCatch (Calls.lift E.withdraw) fun _ ↦ return []
  else
    return []

variable {E}

theorem exec_fallBackM (self : Pipeline) (d : δ) (pending : Bytes) :
    (fallBackM E pending).exec (self, d)
      = (.ok (self.fallBack E d pending).2, (self.fallBack E d pending).1) := by
  obtain ⟨_ | _, startTimeout, firstInput, producing⟩ := self <;> rfl

theorem exec_withdraw (self : Pipeline) (d : δ) (default : Bytes) :
    (tryCatch (Calls.lift E.withdraw) fun _ ↦ return default : Calls δ Bytes).exec (self, d)
      = (.ok (withdrawOr E d default).1, self, (withdrawOr E d default).2) := by
  rw [Calls.exec_tryCatch, Calls.exec_lift, withdrawOr]
  rcases E.withdraw d with ⟨_ | _, d⟩ <;> rfl

theorem exec_recoverM (packets : Bytes) (self : Pipeline) (d : δ) :
    (recoverM E packets).exec (self, d)
      = (.ok (self.recover E d packets).2, (self.recover E d packets).1) := by
  rw [recoverM, Calls.exec_bind, exec_withdraw, recover]
  exact exec_fallBackM self _ _

theorem exec_checkStartM (packets out : Bytes) (self : Pipeline) (d : δ) :
    (checkStartM E packets out).exec (self, d)
      = (.ok (self.checkStart E d packets out).2, (self.checkStart E d packets out).1) := by
  rw [checkStartM, Calls.exec_bind, Calls.exec_lift, checkStart]
  dsimp only
  rw [Calls.exec_bind, Calls.exec_get]
  dsimp only
  cases self.firstInput with
  | none => rfl
  | some first =>
    dsimp only
    split
    · rw [Calls.exec_bind, exec_withdraw]
      exact exec_fallBackM self _ _
    · rfl

/-- **No error gets past `process`.** -/
theorem exec_processM (packets : Bytes) (self : Pipeline) (d : δ) :
    (processM E packets).exec (self, d)
      = (.ok (self.process E d packets).2, (self.process E d packets).1) := by
  rw [processM, Calls.exec_bind, Calls.exec_get, process]
  dsimp only
  split
  · rw [Calls.exec_bind, Calls.exec_tryCatch, Calls.exec_bind, Calls.exec_lift]
    rcases E.put d packets with ⟨_ | _, d₁⟩
    · exact exec_recoverM packets self d₁
    · dsimp only
      rw [Calls.exec_bind, Calls.exec_lift]
      rcases E.get d₁ with ⟨_ | out, d₂⟩
      · exact exec_recoverM packets self d₂
      · dsimp only [Calls.exec_pure]
        split
        · rfl
        · split
          · exact exec_checkStartM packets out self d₂
          · rfl
  · rfl

/-- **No error gets past `finish`.** -/
theorem exec_finishM (self : Pipeline) (d : δ) :
    (finishM E).exec (self, d) = (.ok (self.finish E d).1, self, (self.finish E d).2) := by
  rw [finishM, Calls.exec_bind, Calls.exec_get, finish]
  dsimp only
  split
  · rw [Calls.exec_tryCatch, Calls.exec_lift]
    rcases E.flush d with ⟨_ | out, d₁⟩
    · exact exec_withdraw self d₁ []
    · rfl
  · rfl

end Raising

end Pipeline

/-! ## The log -/

/-- The methods of the descrambler. -/
inductive Method where
  | put
  | get
  | withdraw
  | flush
  | programs
  | close
  deriving DecidableEq, Repr

variable {δ : Type}

/-- The same descrambler, with a log of the calls of its methods. The clock is none of them. -/
def Environment.logged (E : Environment δ) : Environment (δ × List Method) where
  put x c := ((E.put x.1 c).1, (E.put x.1 c).2, x.2 ++ [.put])
  get x := ((E.get x.1).1, (E.get x.1).2, x.2 ++ [.get])
  withdraw x := ((E.withdraw x.1).1, (E.withdraw x.1).2, x.2 ++ [.withdraw])
  flush x := ((E.flush x.1).1, (E.flush x.1).2, x.2 ++ [.flush])
  close x := (E.close x.1, x.2 ++ [.close])
  clock x := ((E.clock x.1).1, (E.clock x.1).2, x.2)
  rounding := E.rounding

/-- The log ends with the only `close` in it. -/
def Settled (log : List Method) : Prop := ∃ calls, log = calls ++ [.close] ∧ .close ∉ calls

/-- As long as there is a descrambler it is not closed, and it was let go with its `close`. -/
def Kept (s : Pipeline × δ × List Method) : Prop :=
  if s.1.descrambler then .close ∉ s.2.2 else Settled s.2.2

namespace Pipeline

variable {E : Environment δ} {self : Pipeline} {d : δ} {log : List Method}

theorem kept_of_open (h : self.descrambler = true) (hlog : .close ∉ log) :
    Kept (self, d, log) := by
  rw [Kept, if_pos h]
  exact hlog

theorem not_mem_concat {m : Method} (hlog : .close ∉ log) (hm : m ≠ .close) :
    .close ∉ log ++ [m] := by
  rw [List.mem_append, List.mem_singleton]
  rintro (hmem | rfl)
  · exact hlog hmem
  · exact hm rfl

theorem kept_fallBack (h : self.descrambler = true) (hlog : .close ∉ log) (pending : Bytes) :
    Kept (self.fallBack E.logged (d, log) pending).1 := by
  rw [fallBack, if_pos h, Kept, if_neg Bool.false_ne_true]
  exact ⟨log, rfl, hlog⟩

theorem open_withdrawOr (hlog : .close ∉ log) (default : Bytes) :
    .close ∉ (withdrawOr E.logged (d, log) default).2.2 := by
  have hwithdraw : .close ∉ log ++ [.withdraw] := not_mem_concat hlog (by decide)
  rw [withdrawOr]
  dsimp only [Environment.logged]
  cases (E.withdraw d).1 <;> exact hwithdraw

theorem kept_withdrawn (h : self.descrambler = true) (hlog : .close ∉ log)
    (default pending : Bytes) :
    Kept (self.fallBack E.logged (withdrawOr E.logged (d, log) default).2 pending).1 :=
  kept_fallBack h (open_withdrawOr hlog default) pending

theorem kept_checkStart (h : self.descrambler = true) (hlog : .close ∉ log)
    (packets out : Bytes) : Kept (self.checkStart E.logged (d, log) packets out).1 := by
  rw [checkStart]
  cases self.firstInput with
  | none => exact kept_of_open h hlog
  | some first =>
    dsimp only
    split
    · exact kept_withdrawn h hlog packets _
    · exact kept_of_open h hlog

/-- One call of `process`, whatever the outcomes. -/
theorem kept_process (hkept : Kept (self, d, log)) (packets : Bytes) :
    Kept (self.process E.logged (d, log) packets).1 := by
  cases h : self.descrambler with
  | false => rwa [process_of_no_descrambler h]
  | true =>
    rw [Kept, if_pos h] at hkept
    have hput : .close ∉ log ++ [.put] := not_mem_concat hkept (by decide)
    have hget : .close ∉ log ++ [.put] ++ [.get] := not_mem_concat hput (by decide)
    rw [process, if_pos h]
    dsimp only [Environment.logged]
    cases (E.put d packets).1 with
    | error e => exact kept_withdrawn h hput [] _
    | ok =>
      dsimp only
      cases (E.get (E.put d packets).2).1 with
      | error e => exact kept_withdrawn h hget [] _
      | ok out =>
        dsimp only
        split
        · exact kept_of_open h hget
        · split
          · exact kept_checkStart h hget packets out
          · exact kept_of_open h hget

theorem open_finish (hlog : .close ∉ log) : .close ∉ (self.finish E.logged (d, log)).2.2 := by
  rw [finish]
  split
  · have hflush : .close ∉ log ++ [.flush] := not_mem_concat hlog (by decide)
    dsimp only [Environment.logged]
    cases (E.flush d).1 with
    | error e => exact open_withdrawOr hflush []
    | ok out => exact hflush
  · exact hlog

theorem kept_finish (hkept : Kept (self, d, log)) :
    Kept (self, (self.finish E.logged (d, log)).2) := by
  cases h : self.descrambler with
  | true =>
    rw [Kept, if_pos h] at hkept ⊢
    exact open_finish hkept
  | false =>
    rw [finish, if_neg (ne_true_of_eq_false h)]
    exact hkept

/-! ## Runs -/

/-- Any number of calls of `process`: they all return, and the log is in order. -/
theorem exec_mapM_processM {s : Pipeline × δ × List Method} (hkept : Kept s)
    (chunks : List Bytes) : ∃ outs s', (chunks.mapM (processM E.logged)).exec s = (.ok outs, s')
      ∧ Kept s' := by
  induction chunks generalizing s with
  | nil => exact ⟨[], s, rfl, hkept⟩
  | cons c chunks ih =>
    obtain ⟨self, d, log⟩ := s
    obtain ⟨outs, s', hrest, hkept'⟩ := ih (kept_process (E := E) hkept c)
    refine ⟨(self.process E.logged (d, log) c).2 :: outs, s', ?_, hkept'⟩
    rw [List.mapM_cons, Calls.exec_bind, exec_processM]
    dsimp only
    rw [Calls.exec_bind, hrest]
    rfl

/-- After a fallback the pipeline does nothing but pass on. -/
theorem exec_of_no_descrambler {s : Pipeline × δ × List Method} (h : s.1.descrambler = false) :
    (∀ packets, (processM E.logged packets).exec s = (.ok packets, s))
    ∧ (finishM E.logged).exec s = (.ok [], s) := by
  obtain ⟨self, x⟩ := s
  constructor
  · intro packets
    rw [exec_processM, process_of_no_descrambler h]
  · rw [exec_finishM, finish, if_neg (ne_true_of_eq_false h)]

/-! ## The recorder -/

/-- How far `stream` comes before it returns or raises. -/
inductive Ending where
  /-- Not to `finish`: the channel does not lock, or the output breaks. -/
  | early
  /-- Behind `finish`: the output breaks, or the reader has failed. -/
  | finished
  /-- To its end. -/
  | complete
  deriving DecidableEq, Repr

/-- What `stream` does with its pipeline: `programs` is the method that counts the packets of each
program. -/
def streamM (E : Environment δ) (programs : δ → δ) (chunks : List Bytes) (ending : Ending) :
    Calls δ Unit := do
  let _ ← chunks.mapM (processM E)
  if ending ≠ .early then
    let _ ← finishM E
    if ending = .complete ∧ (← get).1.descrambler then
      modify fun s ↦ (s.1, programs s.2)

/-- What `record` does with its pipeline. -/
def recordM (E : Environment δ) (programs : δ → δ) (chunks : List Bytes) (ending : Ending) :
    Calls δ Unit :=
  tryFinally (streamM E programs chunks ending) do
    if (← get).1.descrambler then
      modify fun s ↦ (s.1, E.close s.2)

/-- The method `programs` of the descrambler with a log. -/
def loggedPrograms (programs : δ → δ) (x : δ × List Method) : δ × List Method :=
  (programs x.1, x.2 ++ [.programs])

theorem kept_streamM (programs : δ → δ) {s : Pipeline × δ × List Method} (hkept : Kept s)
    (chunks : List Bytes) (ending : Ending) :
    ∃ s', (streamM E.logged (loggedPrograms programs) chunks ending).exec s = (.ok (), s')
      ∧ Kept s' := by
  obtain ⟨outs, ⟨self, d, log⟩, hrun, hkept'⟩ := exec_mapM_processM (E := E) hkept chunks
  rw [streamM, Calls.exec_bind, hrun]
  dsimp only
  split
  · rw [Calls.exec_bind, exec_finishM]
    dsimp only
    rw [Calls.exec_bind, Calls.exec_get]
    dsimp only
    have hkept'' := kept_finish (E := E) hkept'
    split
    · rename_i hcomplete
      refine ⟨_, rfl, ?_⟩
      rw [Kept, if_pos hcomplete.2] at hkept'' ⊢
      exact not_mem_concat hkept'' (by decide)
    · exact ⟨_, rfl, hkept''⟩
  · exact ⟨_, rfl, hkept'⟩

/-- **One fallback, one close.** Whatever the methods of the descrambler return or raise: every call
of `process` and `finish` returns; the descrambler is not closed before a fallback; at a fallback it
is closed once, as the last call of all, and from then on chunks pass unchanged and `finish` has
nothing more; and `record` always leaves it closed once, by the last call. -/
theorem settled_recordM (E : Environment δ) (programs : δ → δ) (startTimeout : ℚ) (d : δ)
    (chunks : List Bytes) :
    (∃ outs s tail s',
      (chunks.mapM (processM E.logged)).exec ({ descrambler := true, startTimeout }, d, [])
        = (.ok outs, s)
      ∧ (finishM E.logged).exec s = (.ok tail, s')
      ∧ (s.1.descrambler = true → .close ∉ s'.2.2)
      ∧ (s.1.descrambler = false → Settled s.2.2
        ∧ (∀ packets, (processM E.logged packets).exec s = (.ok packets, s))
        ∧ tail = [] ∧ s' = s))
    ∧ ∀ ending, ∃ s, (recordM E.logged (loggedPrograms programs) chunks ending).exec
        ({ descrambler := true, startTimeout }, d, []) = (.ok (), s) ∧ Settled s.2.2 := by
  have hstart : Kept ({ descrambler := true, startTimeout }, d, []) :=
    kept_of_open rfl List.not_mem_nil
  constructor
  · obtain ⟨outs, ⟨self, d', log⟩, hrun, hkept⟩ := exec_mapM_processM (E := E) hstart chunks
    refine ⟨outs, _, _, _, hrun, exec_finishM self (d', log), ?_, ?_⟩
    · intro h
      rw [Kept, if_pos h] at hkept
      exact open_finish hkept
    · intro h
      rw [Kept, if_neg (ne_true_of_eq_false h)] at hkept
      obtain ⟨hpass, -⟩ := exec_of_no_descrambler (E := E) (s := (self, d', log)) h
      refine ⟨hkept, hpass, ?_, ?_⟩
      · rw [finish, if_neg (ne_true_of_eq_false h)]
      · rw [finish, if_neg (ne_true_of_eq_false h)]
  · intro ending
    obtain ⟨⟨self, d', log⟩, hrun, hkept⟩ := kept_streamM (E := E) programs hstart chunks ending
    rw [recordM, Calls.exec_tryFinally, hrun]
    dsimp only
    rw [Calls.exec_bind, Calls.exec_get]
    dsimp only
    by_cases h : self.descrambler = true
    · rw [Kept, if_pos h] at hkept
      rw [if_pos h]
      exact ⟨_, rfl, log, rfl, hkept⟩
    · rw [Kept, if_neg h] at hkept
      rw [if_neg h]
      exact ⟨_, rfl, hkept⟩

end Pipeline

end Recdyud
