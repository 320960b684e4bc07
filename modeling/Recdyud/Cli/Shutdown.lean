import Recdyud.Cli.Stream

/-!
# The recorder ends

Two threads that wait for each other may wait forever. Here the consumer waits for the reader in
`join` and for chunks in `get`, and the reader waits only for the tuner; `halt` is set in front of
every `join`. So in every reachable state somebody can go on (`exists_step`), and from the stop
event on the steps that are left are counted by two potentials: one of the consumer, which a full
queue bounds, and one of the reader, which sees `halt` at its next turn.
-/

namespace Recdyud

/-- The consumer is behind the loop of `stream`. -/
def ConsumerPc.Behind (pc : ConsumerPc) : Prop :=
  pc ≠ .checkStop ∧ pc ≠ .checkDeadline ∧ pc ≠ .get ∧ pc ≠ .handle

/-- A step of the consumer. -/
def StreamAction.isConsumer : StreamAction → Bool
  | .consumer _ => true
  | .reader _ | .signal => false

/-- A step of the reader. -/
def StreamAction.isReader : StreamAction → Bool
  | .reader _ => true
  | .consumer _ | .signal => false

namespace StreamState

/-- The recording is to end: the stop event is set, or the deadline has passed. -/
def Stopping (s : StreamState) : Prop := s.stop = true ∨ s.consumer.Behind

/-- Steps that are left to the consumer at most, once the recording is to end. -/
def consumerPotential (s : StreamState) : ℕ :=
  match s.consumer with
  | .done => 0
  | .finalJoin => 1
  | .finalHalt => 2
  | .drain => 2 * s.queue.items.length + 3
  | .drainHandle => 2 * s.queue.items.length + 4
  | .join => 2 * queueChunks + 4
  | .halt => 2 * queueChunks + 5
  | .checkStop => 2 * queueChunks + 6
  | .handle => 2 * queueChunks + 7
  | .get => 2 * queueChunks + 8
  | .checkDeadline => 2 * queueChunks + 9

/-- Steps that are left to the reader at most, once `halt` is set. -/
def readerPotential (s : StreamState) : ℕ :=
  match s.reader with
  | .ended => 0
  | .check | .failed => 1
  | .put => 2
  | .account => 3
  | .read => 4

/-- In front of every `join`, `halt` is set. -/
def Halting (s : StreamState) : Prop :=
  s.consumer.Behind → s.consumer ≠ .halt → s.halt = true

variable {s s' : StreamState} {hasDeadline : Bool}

/-! ## One step -/

/-- A step of the reader leaves the consumer alone, and does not take back the stop event. -/
theorem readerStep_frame {a : ReaderAction} (h : s.readerStep a = some s') :
    s.reader ≠ .ended ∧ s'.consumer = s.consumer ∧ s'.halt = s.halt ∧
      (s.stop = true → s'.stop = true) := by
  cases readerSteps_of_eq h with
  | reportError hpc => exact ⟨by simp [hpc], rfl, rfl, fun _ ↦ rfl⟩
  | _ hpc => exact ⟨by simp [hpc], rfl, rfl, id⟩

/-- Behind `halt`, a step of the reader brings it nearer to its end. -/
theorem readerPotential_readerStep {a : ReaderAction} (hhalt : s.halt = true)
    (h : s.readerStep a = some s') : s'.readerPotential + 1 ≤ s.readerPotential := by
  cases readerSteps_of_eq h with
  | checkHalt hpc => simp [readerPotential, hpc, hhalt]
  | _ hpc => simp [readerPotential, hpc]

/-- A step of the consumer leaves the reader alone, and takes back neither event. -/
theorem consumerStep_frame {a : ConsumerAction} (h : s.consumerStep hasDeadline a = some s') :
    s'.reader = s.reader ∧ s'.stop = s.stop ∧ (s.halt = true → s'.halt = true) := by
  cases consumerSteps_of_eq h with
  | setHalt | finalHalt => exact ⟨rfl, rfl, fun _ ↦ rfl⟩
  | _ => exact ⟨rfl, rfl, id⟩

/-- Inside the loop of `stream`, the recording is to end for the stop event only. -/
theorem Stopping.stop (h : s.Stopping) (hpc : ¬s.consumer.Behind) : s.stop = true :=
  h.resolve_right hpc

/-- Once the recording is to end, a step of the consumer brings it nearer to that. -/
theorem consumerPotential_consumerStep {a : ConsumerAction} (hstopping : s.Stopping)
    (h : s.consumerStep hasDeadline a = some s') :
    s'.Stopping ∧ s'.consumerPotential + 1 ≤ s.consumerPotential := by
  have hqueue := s.queue.length_le
  cases consumerSteps_of_eq h with
  | checkStop hpc =>
    have hstop := hstopping.stop (by simp [ConsumerPc.Behind, hpc])
    simp [Stopping, ConsumerPc.Behind, consumerPotential, hpc, hstop]
  | checkDeadline hpc expired =>
    have hstop := hstopping.stop (by simp [ConsumerPc.Behind, hpc])
    cases expired <;> simp [Stopping, consumerPotential, hpc, hstop]
  | get hpc | getTimeout hpc | handle hpc =>
    have hstop := hstopping.stop (by simp [ConsumerPc.Behind, hpc])
    simp [Stopping, consumerPotential, hpc, hstop]
  | setHalt hpc | drainHandle hpc | finalHalt hpc | finalJoin hpc =>
    simp [Stopping, ConsumerPc.Behind, consumerPotential, hpc]
  | join hpc =>
    refine ⟨by simp [Stopping, ConsumerPc.Behind], ?_⟩
    simp only [consumerPotential, hpc]
    omega
  | drain hpc hget =>
    refine ⟨by simp [Stopping, ConsumerPc.Behind], ?_⟩
    simp only [consumerPotential, hpc, BoundedQueue.get_eq_some hget, List.length_cons]
    omega
  | drained hpc hget =>
    have hitems := BoundedQueue.get_eq_none hget
    simp [Stopping, ConsumerPc.Behind, consumerPotential, hpc, hitems]

/-- The queue the consumer drains does not grow any more. -/
theorem consumerPotential_readerStep {a : ReaderAction} (hjoined : s.consumer.Joined →
    s.reader = .ended) (h : s.readerStep a = some s') :
    s'.consumerPotential = s.consumerPotential := by
  obtain ⟨hreader, hconsumer, -, -⟩ := readerStep_frame h
  rw [consumerPotential, consumerPotential, hconsumer]
  cases hpc : s.consumer with
  | drain | drainHandle => exact absurd (hjoined (by simp [ConsumerPc.Joined, hpc])) hreader
  | _ => rfl

/-! ## Nobody waits in vain -/

theorem Halting.consumerStep {a : ConsumerAction} (hs : s.Halting)
    (h : s.consumerStep hasDeadline a = some s') : s'.Halting := by
  obtain ⟨-, -, hhalt⟩ := consumerStep_frame h
  cases consumerSteps_of_eq h with
  | checkStop hpc =>
    intro hbehind hne
    cases hstop : s.stop <;> cases hasDeadline <;>
      simp [ConsumerPc.Behind, hstop] at hbehind hne
  | checkDeadline hpc expired =>
    intro hbehind hne
    cases expired <;> simp [ConsumerPc.Behind] at hbehind hne
  | get => exact fun hbehind _ ↦ absurd rfl hbehind.2.2.2
  | getTimeout | handle => exact fun hbehind _ ↦ absurd rfl hbehind.1
  | setHalt | finalHalt => exact fun _ _ ↦ rfl
  | join hpc | drain hpc | drained hpc | drainHandle hpc | finalJoin hpc =>
    exact fun _ _ ↦ hhalt (hs (by simp [ConsumerPc.Behind, hpc]) (by simp [hpc]))

theorem halting_of_run {actions : List StreamAction}
    (hrun : (streamMachine hasDeadline).Run actions s) : s.Halting := by
  refine Machine.Run.induction (M := streamMachine hasDeadline) (I := fun _ s ↦ s.Halting)
    (fun hbehind _ ↦ absurd rfl hbehind.1) ?_ hrun
  intro actions s a s' _ hs hstep
  cases a with
  | signal =>
    cases hstep
    exact hs
  | consumer a => exact hs.consumerStep hstep
  | reader a =>
    obtain ⟨-, hconsumer, hhalt, -⟩ := readerStep_frame hstep
    rw [Halting, hconsumer, hhalt]
    exact hs

/-- The reader can go on until it has ended. -/
theorem exists_readerStep (h : s.reader ≠ .ended) : ∃ a s', s.readerStep a = some s' := by
  cases hpc : s.reader with
  | check => exact ⟨.checkHalt, _, if_pos hpc⟩
  | read => exact ⟨.readRaises, _, if_pos hpc⟩
  | account => exact ⟨.account, _, if_pos hpc⟩
  | put =>
    rcases hput : s.queue.put s.buf with _ | queue
    · exact ⟨.put, _, by rw [readerStep, if_pos hpc, hput]⟩
    · exact ⟨.put, _, by rw [readerStep, if_pos hpc, hput]⟩
  | failed => exact ⟨.reportError, _, if_pos hpc⟩
  | ended => exact absurd hpc h

/-- The consumer can go on until it is done, unless it waits for the reader. -/
theorem exists_consumerStep (h : s.consumer ≠ .done)
    (hjoin : s.consumer = .join ∨ s.consumer = .finalJoin → s.reader = .ended) :
    ∃ a s', s.consumerStep hasDeadline a = some s' := by
  cases hpc : s.consumer with
  | checkStop => exact ⟨.checkStop, _, if_pos hpc⟩
  | checkDeadline => exact ⟨.checkDeadline true, _, if_pos hpc⟩
  | get =>
    rcases hget : s.queue.get with _ | ⟨item, queue⟩
    · exact ⟨.getTimeout, _, if_pos ⟨hpc, BoundedQueue.get_eq_none hget⟩⟩
    · exact ⟨.get, _, by rw [consumerStep, if_pos hpc, hget]⟩
  | handle => exact ⟨.handle, _, if_pos hpc⟩
  | halt => exact ⟨.setHalt, _, if_pos hpc⟩
  | join => exact ⟨.join, _, if_pos ⟨hpc, hjoin (.inl hpc)⟩⟩
  | drain =>
    rcases hget : s.queue.get with _ | ⟨item, queue⟩
    · exact ⟨.drain, _, by rw [consumerStep, if_pos hpc, hget]⟩
    · exact ⟨.drain, _, by rw [consumerStep, if_pos hpc, hget]⟩
  | drainHandle => exact ⟨.drainHandle, _, if_pos hpc⟩
  | finalHalt => exact ⟨.finalHalt, _, if_pos hpc⟩
  | finalJoin => exact ⟨.finalJoin, _, if_pos ⟨hpc, hjoin (.inr hpc)⟩⟩
  | done => exact absurd hpc h

/-- **No deadlock.** In every reachable state the consumer is done, or can go on, or waits for a
reader that was told to halt and can go on itself. -/
theorem exists_step {actions : List StreamAction}
    (hrun : (streamMachine hasDeadline).Run actions s) :
    s.consumer = .done ∨ (∃ a s', s.consumerStep hasDeadline a = some s') ∨
      s.halt = true ∧ ∃ a s', s.readerStep a = some s' := by
  by_cases hdone : s.consumer = .done
  · exact .inl hdone
  by_cases hjoin : s.consumer = .join ∨ s.consumer = .finalJoin → s.reader = .ended
  · exact .inr (.inl (exists_consumerStep hdone hjoin))
  · obtain ⟨hwaits, hreader⟩ := Classical.not_imp.mp hjoin
    refine .inr (.inr ⟨halting_of_run hrun ?_ ?_, exists_readerStep hreader⟩)
    · rcases hwaits with hpc | hpc <;> simp [ConsumerPc.Behind, hpc]
    · rcases hwaits with hpc | hpc <;> simp [hpc]

end StreamState

/-! ## The steps that are left -/

open StreamState

section Left

variable {hasDeadline : Bool} {actions more : List StreamAction} {s s' : StreamState}

/-- Reachable states, from which the recording is to end. -/
def ReachedStopping (hasDeadline : Bool) (s : StreamState) : Prop :=
  (∃ actions, (streamMachine hasDeadline).Run actions s) ∧ s.Stopping

theorem ReachedStopping.step {a : StreamAction} (hs : ReachedStopping hasDeadline s)
    (h : (streamMachine hasDeadline).step s a = some s') :
    ReachedStopping hasDeadline s' ∧
      s'.consumerPotential + (if a.isConsumer then 1 else 0) ≤ s.consumerPotential := by
  obtain ⟨⟨actions, hrun⟩, hstopping⟩ := hs
  have hrun' : (streamMachine hasDeadline).Run (actions ++ [a]) s' :=
    Machine.run_concat.mpr ⟨s, hrun, h⟩
  cases a with
  | signal =>
    cases h
    exact ⟨⟨⟨_, hrun'⟩, .inl rfl⟩, le_refl _⟩
  | consumer a =>
    obtain ⟨hstopping', hpotential⟩ := consumerPotential_consumerStep hstopping h
    exact ⟨⟨⟨_, hrun'⟩, hstopping'⟩, hpotential⟩
  | reader a =>
    obtain ⟨-, hconsumer, -, hstop⟩ := readerStep_frame h
    have hpotential := consumerPotential_readerStep (flow_run hrun).joined h
    refine ⟨⟨⟨_, hrun'⟩, ?_⟩, hpotential.le⟩
    rcases hstopping with hs | hbehind
    · exact .inl (hstop hs)
    · exact .inr (hconsumer ▸ hbehind)

theorem halt_step {a : StreamAction} (hhalt : s.halt = true)
    (h : (streamMachine hasDeadline).step s a = some s') :
    s'.halt = true ∧ s'.readerPotential + (if a.isReader then 1 else 0) ≤ s.readerPotential := by
  cases a with
  | signal =>
    cases h
    exact ⟨hhalt, le_refl _⟩
  | consumer a =>
    obtain ⟨hreader, -, hhalt'⟩ := consumerStep_frame h
    exact ⟨hhalt' hhalt, by rw [readerPotential, readerPotential, hreader]; exact le_refl _⟩
  | reader a =>
    obtain ⟨-, -, hhalt', -⟩ := readerStep_frame h
    exact ⟨hhalt' ▸ hhalt, readerPotential_readerStep hhalt h⟩

theorem consumerPotential_le (s : StreamState) : s.consumerPotential ≤ 2 * queueChunks + 9 := by
  have hqueue := s.queue.length_le
  rw [consumerPotential]
  split <;> omega

theorem readerPotential_le (s : StreamState) : s.readerPotential ≤ 4 := by
  rw [readerPotential]
  split <;> omega

/-- **The recorder ends.** From any reachable state in which the stop event is set or the loop of
`stream` has been left, whatever the interleaving and the results of the reads: the consumer makes
at most `2 * 1536 + 9` more steps, the reader at most 4 once `halt` is set, and as long as the
consumer is not done somebody can make one of these steps — the consumer itself, or the reader it
waits for. -/
theorem stream_shuts_down (hrun : (streamMachine hasDeadline).Run actions s)
    (hstopping : s.Stopping) (hmore : (streamMachine hasDeadline).exec s more = some s') :
    more.countP StreamAction.isConsumer ≤ 2 * queueChunks + 9 ∧
      (s.halt = true → more.countP StreamAction.isReader ≤ 4) ∧
      (s'.consumer = .done ∨ (∃ a s'', s'.consumerStep hasDeadline a = some s'') ∨
        s'.halt = true ∧ ∃ a s'', s'.readerStep a = some s'') := by
  obtain ⟨hcount, ⟨actions', hrun'⟩, -⟩ := Machine.countP_le_of_exec
    (M := streamMachine hasDeadline) (fun _ _ _ hs h ↦ (ReachedStopping.step hs h).1)
    (fun _ _ _ hs h ↦ (ReachedStopping.step hs h).2) ⟨⟨actions, hrun⟩, hstopping⟩ hmore
  have hbound := consumerPotential_le s
  refine ⟨by omega, fun hhalt ↦ ?_, exists_step hrun'⟩
  obtain ⟨hreads, -⟩ := Machine.countP_le_of_exec (M := streamMachine hasDeadline)
    (I := fun s ↦ s.halt = true) (fun _ _ _ hs h ↦ (halt_step hs h).1)
    (fun _ _ _ hs h ↦ (halt_step hs h).2) hhalt hmore
  have hreader := readerPotential_le s
  omega

end Left

/-- A signal in front of the first step; the reader halts before it reads. -/
theorem stream_shuts_down_signal :
    ∃ s, (streamMachine false).exec { stop := true } [.consumer .checkStop, .consumer .setHalt,
      .reader .checkHalt, .consumer .join, .consumer .drain, .consumer .finalHalt,
      .consumer .finalJoin] = some s ∧
    (s.consumer = .done ∨ (∃ a s', s.consumerStep false a = some s') ∨
      s.halt = true ∧ ∃ a s', s.readerStep a = some s') :=
  have ⟨s, hs⟩ := Option.isSome_iff_exists.mp (by decide +kernel)
  have hrun : (streamMachine false).Run [.signal] { stop := true } := rfl
  ⟨s, hs, (stream_shuts_down hrun (.inl rfl) hs).2.2⟩

end Recdyud
