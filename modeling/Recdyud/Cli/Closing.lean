import Recdyud.Cli.Fallback

/-!
# Open and closed

What a recording needs of its descrambler is that its methods keep it usable and that `close` closes
it: `Guards` says so of any two properties of a descrambler, open and closed. The pipeline has the
descrambler as long as that is open, and has let it go when it is closed (`Stands`); so a recording
ends with a closed one, however the methods turn out and however far `stream` comes
(`exec_recordM`).
-/

namespace Recdyud

variable {δ : Type} {E : Environment δ} {Open Closed : δ → Prop}

/-- Every method keeps the descrambler open, and `close` closes it. -/
structure Environment.Guards (E : Environment δ) (Open Closed : δ → Prop) : Prop where
  put : ∀ d c, Open d → Open (E.put d c).2
  get : ∀ d, Open d → Open (E.get d).2
  withdraw : ∀ d, Open d → Open (E.withdraw d).2
  flush : ∀ d, Open d → Open (E.flush d).2
  close : ∀ d, Open d → Closed (E.close d)
  clock : ∀ d, Open d → Open (E.clock d).2

/-- The descrambler is open as long as the pipeline has it, and closed afterwards. -/
def Stands (Open Closed : δ → Prop) (s : Pipeline × δ) : Prop :=
  if s.1.descrambler then Open s.2 else Closed s.2

namespace Pipeline

variable {self : Pipeline} {d : δ}

theorem stands_of_open (h : self.descrambler = true) (hd : Open d) :
    Stands Open Closed (self, d) := by
  rwa [Stands, if_pos h]

theorem stands_fallBack (hE : E.Guards Open Closed) (h : self.descrambler = true) (hd : Open d)
    (pending : Bytes) : Stands Open Closed (self.fallBack E d pending).1 := by
  rw [fallBack, if_pos h, Stands, if_neg Bool.false_ne_true]
  exact hE.close d hd

theorem open_of_withdrawOr (hE : E.Guards Open Closed) (hd : Open d) (default : Bytes) :
    Open (withdrawOr E d default).2 := by
  have hnext := hE.withdraw d hd
  rw [withdrawOr]
  rcases hw : E.withdraw d with ⟨_ | _, d'⟩ <;> rwa [hw] at hnext

theorem stands_checkStart (hE : E.Guards Open Closed) (h : self.descrambler = true) (hd : Open d)
    (packets out : Bytes) : Stands Open Closed (self.checkStart E d packets out).1 := by
  have hclock := hE.clock d hd
  rw [checkStart]
  rcases self.firstInput with _ | first
  · exact stands_of_open h hclock
  · dsimp only
    split
    · exact stands_fallBack hE h (open_of_withdrawOr hE hclock packets) _
    · exact stands_of_open h hclock

/-- One call of `process`, whatever the outcomes. -/
theorem stands_process (hE : E.Guards Open Closed) (hs : Stands Open Closed (self, d))
    (packets : Bytes) : Stands Open Closed (self.process E d packets).1 := by
  cases h : self.descrambler with
  | false => rwa [process_of_no_descrambler h]
  | true =>
    rw [Stands, if_pos h] at hs
    have hput := hE.put d packets hs
    rw [process, if_pos h]
    rcases hp : E.put d packets with ⟨_ | _, d₁⟩ <;> rw [hp] at hput
    · exact stands_fallBack hE h (open_of_withdrawOr hE hput []) _
    have hget := hE.get d₁ hput
    dsimp only
    rcases hg : E.get d₁ with ⟨_ | out, d₂⟩ <;> rw [hg] at hget
    · exact stands_fallBack hE h (open_of_withdrawOr hE hget []) _
    dsimp only
    split
    · exact stands_of_open h hget
    · split
      · exact stands_checkStart hE h hget packets out
      · exact stands_of_open h hget

theorem stands_finish (hE : E.Guards Open Closed) (hs : Stands Open Closed (self, d)) :
    Stands Open Closed (self, (self.finish E d).2) := by
  rw [finish]
  split
  · rename_i h
    rw [Stands, if_pos h] at hs
    have hflush := hE.flush d hs
    rcases hf : E.flush d with ⟨_ | out, d'⟩ <;> rw [hf] at hflush
    · exact stands_of_open h (open_of_withdrawOr hE hflush [])
    · exact stands_of_open h hflush
  · exact hs

theorem exec_mapM_of_stands (hE : E.Guards Open Closed) {s : Pipeline × δ}
    (hs : Stands Open Closed s) (chunks : List Bytes) : ∃ outs s',
      (chunks.mapM (processM E)).exec s = (.ok outs, s') ∧ Stands Open Closed s' := by
  induction chunks generalizing s with
  | nil => exact ⟨[], s, rfl, hs⟩
  | cons c chunks ih =>
    obtain ⟨self, d⟩ := s
    obtain ⟨outs, s', hrest, hs'⟩ := ih (stands_process hE hs c)
    refine ⟨(self.process E d c).2 :: outs, s', ?_, hs'⟩
    rw [List.mapM_cons, Calls.exec_bind, exec_processM]
    dsimp only
    rw [Calls.exec_bind, hrest]
    rfl

theorem stands_streamM (hE : E.Guards Open Closed) {programs : δ → δ}
    (hprograms : ∀ d, Open d → Open (programs d)) {s : Pipeline × δ} (hs : Stands Open Closed s)
    (chunks : List Bytes) (ending : Ending) :
    ∃ s', (streamM E programs chunks ending).exec s = (.ok (), s') ∧ Stands Open Closed s' := by
  obtain ⟨outs, ⟨self, d⟩, hrun, hs'⟩ := exec_mapM_of_stands hE hs chunks
  rw [streamM, Calls.exec_bind, hrun]
  dsimp only
  split
  · rw [Calls.exec_bind, exec_finishM]
    dsimp only
    rw [Calls.exec_bind, Calls.exec_get]
    dsimp only
    have hfinish := stands_finish hE hs'
    split
    · rename_i hcomplete
      rw [Stands, if_pos hcomplete.2] at hfinish
      exact ⟨_, rfl, stands_of_open hcomplete.2 (hprograms _ hfinish)⟩
    · exact ⟨_, rfl, hfinish⟩
  · exact ⟨_, rfl, hs'⟩

/-- **The recorder closes** what it was given open, and does not touch it afterwards. -/
theorem exec_recordM (hE : E.Guards Open Closed) {programs : δ → δ}
    (hprograms : ∀ d, Open d → Open (programs d)) {s : Pipeline × δ} (hs : Stands Open Closed s)
    (chunks : List Bytes) (ending : Ending) :
    ∃ s', (recordM E programs chunks ending).exec s = (.ok (), s') ∧ Closed s'.2 := by
  obtain ⟨⟨self, d⟩, hrun, hs'⟩ := stands_streamM hE hprograms hs chunks ending
  rw [recordM, Calls.exec_tryFinally, hrun]
  dsimp only
  rw [Calls.exec_bind, Calls.exec_get]
  dsimp only
  by_cases h : self.descrambler = true
  · rw [Stands, if_pos h] at hs'
    rw [if_pos h]
    exact ⟨_, rfl, hE.close d hs'⟩
  · rw [Stands, if_neg h] at hs'
    rw [if_neg h]
    exact ⟨_, rfl, hs'⟩

end Pipeline

end Recdyud
