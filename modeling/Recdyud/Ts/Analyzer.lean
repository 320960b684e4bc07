import Recdyud.Ts.Packet

/-!
# Stream statistics

`TsAnalyzer.update` counts errored, null and scrambled packets and continuity errors over one
buffer, and adds the counts of the call to the running totals. Its abstract form `account` books
one packet at a time directly into the analyzer; `update_eq` says that a call of `update` books the
packets of its buffer one after the other and returns the difference of the totals. Splitting a
stream of whole packets into calls therefore does not matter for the analyzer.

The 8192-entry tables are functions on the 13-bit packet identifiers, and the `-1` of a table entry
not yet set is `none`.
-/

namespace Recdyud

/-- `TsCounters`, with Python's unbounded integers. -/
@[ext] structure TsCounters where
  packets : ℤ := 0
  tei : ℤ := 0
  ccErrors : ℤ := 0
  scrambled : ℤ := 0
  null : ℤ := 0
  deriving DecidableEq, Repr

namespace TsCounters

/-- `TsCounters.__sub__` -/
protected def sub (self other : TsCounters) : TsCounters where
  packets := self.packets - other.packets
  tei := self.tei - other.tei
  ccErrors := self.ccErrors - other.ccErrors
  scrambled := self.scrambled - other.scrambled
  null := self.null - other.null

/-- The five `+=` at the end of `TsAnalyzer.update`. -/
protected def add (t delta : TsCounters) : TsCounters where
  packets := t.packets + delta.packets
  tei := t.tei + delta.tei
  ccErrors := t.ccErrors + delta.ccErrors
  scrambled := t.scrambled + delta.scrambled
  null := t.null + delta.null

instance : Sub TsCounters := ⟨TsCounters.sub⟩

instance : Add TsCounters := ⟨TsCounters.add⟩

theorem add_def (t delta : TsCounters) : t + delta = TsCounters.add t delta := rfl

theorem add_sub_self (t delta : TsCounters) : t + delta - t = delta := by
  change TsCounters.sub (TsCounters.add t delta) t = delta
  ext1 <;> simp only [TsCounters.sub, TsCounters.add] <;> omega

theorem add_sub_cancel (t u : TsCounters) : t + (u - t) = u := by
  change TsCounters.add t (TsCounters.sub u t) = u
  ext1 <;> simp only [TsCounters.sub, TsCounters.add] <;> omega

theorem add_zero (t : TsCounters) : t + {} = t := by
  rw [add_def]
  ext1 <;> simp [TsCounters.add]

end TsCounters

/-! ## The analyzer -/

/-- TEI / continuity counter / scrambling statistics. -/
@[ext] structure TsAnalyzer where
  total : TsCounters := {}
  pidPackets : Fin 8192 → ℕ := fun _ ↦ 0
  lastCc : Fin 8192 → Option ℕ := fun _ ↦ none

namespace TsAnalyzer

/-- The tables and counters the loop of `update` writes. -/
structure Loop where
  pidPackets : Fin 8192 → ℕ
  lastCc : Fin 8192 → Option ℕ
  tei : ℤ := 0
  ccErrors : ℤ := 0
  scrambled : ℤ := 0
  null : ℤ := 0

/-- A jump of the continuity counter; a difference of 0 is a (permitted) duplicate packet. -/
def ccJump (prev : Option ℕ) (cc : ℕ) : Bool :=
  match prev with
  | none => false
  | some prev => decide (((cc : ℤ) - prev) % 16 > 1)

/-- `if b3 & 0xC0: scrambled += 1` -/
def Loop.countScrambled (l : Loop) (b3 : UInt8) : Loop :=
  if b3 &&& 0xC0 != 0 then { l with scrambled := l.scrambled + 1 } else l

/-- `if b3 & 0x10:` the continuity check of a packet with payload. -/
def Loop.checkContinuity (l : Loop) (pid : Fin 8192) (b3 : UInt8) : Loop :=
  if b3 &&& 0x10 != 0 then
    let cc := (b3 &&& 0x0F).toNat
    let l := if ccJump (l.lastCc pid) cc then { l with ccErrors := l.ccErrors + 1 } else l
    { l with lastCc := Function.update l.lastCc pid (some cc) }
  else
    l

/-- The loop body of `update`. -/
def updateBody (packets : Bytes) (l : Loop) (off : ℕ) : Except IndexError Loop := do
  let b1 ← index packets (off + 1)
  let b3 ← index packets (off + 3)
  let b2 ← index packets (off + 2)
  let pid : Fin 8192 := ⟨((b1 &&& 0x1F).toNat <<< 8) ||| b2.toNat, Packet.pid_lt b1 b2⟩
  let l := { l with pidPackets := Function.update l.pidPackets pid (l.pidPackets pid + 1) }
  -- an errored packet counts for its PID as far as that can be read, and for nothing else
  if b1 &&& 0x80 != 0 then
    return { l with tei := l.tei + 1 }
  if pid.val = nullPid then
    return { l with null := l.null + 1 }
  return (l.countScrambled b3).checkContinuity pid b3

/-- `TsAnalyzer.update`: the new analyzer and the returned delta. -/
def update (self : TsAnalyzer) (packets : Bytes) :
    Except IndexError (TsAnalyzer × TsCounters) := do
  let n := packets.length / packetSize
  if n = 0 then
    return (self, {})
  let l ← (offsets packets).foldlM (updateBody packets)
    { pidPackets := self.pidPackets, lastCc := self.lastCc }
  let delta : TsCounters :=
    { packets := n, tei := l.tei, ccErrors := l.ccErrors, scrambled := l.scrambled, null := l.null }
  return ({ total := self.total + delta, pidPackets := l.pidPackets, lastCc := l.lastCc }, delta)

/-- `TsAnalyzer.reset_continuity` -/
def resetContinuity (self : TsAnalyzer) : TsAnalyzer := { self with lastCc := fun _ ↦ none }

/-! ## One packet at a time -/

/-- Whether a packet takes part in the continuity count of its PID. -/
def Counted (p : Packet) : Prop :=
  p.tei = false ∧ (p.pid : ℕ) ≠ nullPid ∧ p.byte 3 Packet.three_lt_packetSize &&& 0x10 ≠ 0

instance (p : Packet) : Decidable (Counted p) := by unfold Counted; infer_instance

/-- What one packet adds to the counters, given the last counter value of its PID. -/
def increment (prev : Option ℕ) (p : Packet) : TsCounters where
  packets := 1
  tei := if p.tei then 1 else 0
  null := if p.tei = false ∧ (p.pid : ℕ) = nullPid then 1 else 0
  scrambled := if p.tei = false ∧ (p.pid : ℕ) ≠ nullPid ∧ p.scrambled then 1 else 0
  ccErrors := if Counted p ∧ ccJump prev p.cc then 1 else 0

/-- Book one packet. -/
def account (self : TsAnalyzer) (p : Packet) : TsAnalyzer where
  total := self.total + increment (self.lastCc p.pid) p
  pidPackets := Function.update self.pidPackets p.pid (self.pidPackets p.pid + 1)
  lastCc := if Counted p then Function.update self.lastCc p.pid (some p.cc) else self.lastCc

/-- The analyzer that a loop state stands for, `k` packets into a call that began with totals
`t`. -/
def Loop.commit (l : Loop) (t : TsCounters) (k : ℕ) : TsAnalyzer where
  total := t +
    { packets := k, tei := l.tei, ccErrors := l.ccErrors, scrambled := l.scrambled, null := l.null }
  pidPackets := l.pidPackets
  lastCc := l.lastCc

/-- The loop body on a packet, with the index expressions resolved. -/
def Loop.step (l : Loop) (p : Packet) : Loop where
  pidPackets := Function.update l.pidPackets p.pid (l.pidPackets p.pid + 1)
  lastCc := if Counted p then Function.update l.lastCc p.pid (some p.cc) else l.lastCc
  tei := l.tei + (increment (l.lastCc p.pid) p).tei
  ccErrors := l.ccErrors + (increment (l.lastCc p.pid) p).ccErrors
  scrambled := l.scrambled + (increment (l.lastCc p.pid) p).scrambled
  null := l.null + (increment (l.lastCc p.pid) p).null

theorem Loop.countScrambled_eq (l : Loop) (p : Packet) :
    l.countScrambled (p.byte 3)
      = { l with scrambled := l.scrambled + if p.scrambled then 1 else 0 } := by
  have hbit : (p.byte 3 &&& 0xC0 != 0) = p.scrambled := rfl
  rw [countScrambled, hbit]
  cases p.scrambled <;> simp

theorem Loop.checkContinuity_eq (l : Loop) (p : Packet) :
    l.checkContinuity p.pid (p.byte 3) = { l with
      ccErrors := l.ccErrors
        + if p.byte 3 &&& 0x10 ≠ 0 ∧ ccJump (l.lastCc p.pid) p.cc then 1 else 0
      lastCc := if p.byte 3 &&& 0x10 ≠ 0 then Function.update l.lastCc p.pid (some p.cc)
        else l.lastCc } := by
  have hcc : (p.byte 3 &&& 0x0F).toNat = p.cc := rfl
  rw [checkContinuity, hcc]
  by_cases hpay : p.byte 3 &&& 0x10 = 0
  · simp [hpay]
  · cases hjump : ccJump (l.lastCc p.pid) p.cc <;> simp [hpay, hjump]

theorem updateBody_eq {packets : Bytes} {off : ℕ} {p : Packet}
    (hp : p.bytes = slice packets off (off + packetSize)) (l : Loop) :
    updateBody packets l off = .ok (l.step p) := by
  have h1 := Packet.index_of_slice hp 1
  have h2 := Packet.index_of_slice hp 2
  have h3 := Packet.index_of_slice hp 3
  set l₁ : Loop :=
    { l with pidPackets := Function.update l.pidPackets p.pid (l.pidPackets p.pid + 1) } with hl₁
  have hbody : updateBody packets l off =
      if p.tei then .ok { l₁ with tei := l.tei + 1 }
      else if (p.pid : ℕ) = nullPid then .ok { l₁ with null := l.null + 1 }
      else .ok ((l₁.countScrambled (p.byte 3)).checkContinuity p.pid (p.byte 3)) := by
    rw [updateBody, h1, h2, h3]
    rfl
  rw [hbody, Loop.countScrambled_eq, Loop.checkContinuity_eq]
  -- the four ways through the body
  cases htei : p.tei with
  | true => simp [Loop.step, increment, Counted, htei, hl₁]
  | false =>
    by_cases hnull : (p.pid : ℕ) = nullPid
    · simp [Loop.step, increment, Counted, htei, hnull, hl₁]
    · simp [Loop.step, increment, Counted, htei, hnull, hl₁]

theorem commit_step (l : Loop) (t : TsCounters) (k : ℕ) (p : Packet) :
    (l.commit t k).account p = (l.step p).commit t (k + 1) := by
  simp only [account, Loop.commit, Loop.step, TsCounters.add_def]
  ext1
  · ext1 <;> simp only [TsCounters.add, increment] <;> push_cast <;> ring
  · rfl
  · rfl

theorem foldl_commit_step (l : Loop) (t : TsCounters) (k : ℕ) (ps : List Packet) :
    ps.foldl account (l.commit t k) = (ps.foldl Loop.step l).commit t (k + ps.length) := by
  induction ps generalizing l k with
  | nil => rfl
  | cons p ps ih =>
    rw [List.foldl_cons, List.foldl_cons, commit_step, ih, List.length_cons, Nat.add_right_comm,
      Nat.add_assoc]

/-- `update` raises nothing, books the packets of the buffer one by one, and returns the change of
the totals. -/
theorem update_eq (self : TsAnalyzer) (packets : Bytes) :
    self.update packets = .ok ((packetsOf packets).foldl account self,
      ((packetsOf packets).foldl account self).total - self.total) := by
  have hlen := length_packetsOf packets
  rw [update]
  by_cases hn : packets.length / packetSize = 0
  · rw [hn] at hlen
    rw [if_pos hn, List.length_eq_zero_iff.mp hlen, List.foldl_nil]
    have hzero : self.total - self.total = {} := by
      have := TsCounters.add_sub_self self.total {}
      rwa [TsCounters.add_zero] at this
    rw [hzero]
    rfl
  · -- the counts of the call start at 0, so the loop begins in a state that stands for `self`
    rw [if_neg hn, foldlM_offsets (g := fun l p ↦ .ok (Loop.step l p))
      fun l off p _ hp ↦ updateBody_eq hp l]
    have hstart : self =
        Loop.commit { pidPackets := self.pidPackets, lastCc := self.lastCc } self.total 0 := by
      rw [Loop.commit]
      ext1
      · exact (TsCounters.add_zero _).symm
      · rfl
      · rfl
    have hfold := foldl_commit_step { pidPackets := self.pidPackets, lastCc := self.lastCc }
      self.total 0 (packetsOf packets)
    rw [← hstart, Nat.zero_add, hlen] at hfold
    rw [hfold, Loop.commit, TsCounters.add_sub_self]
    have hpure : (packetsOf packets).foldlM
          (fun l p ↦ (.ok (Loop.step l p) : Except IndexError Loop))
          { pidPackets := self.pidPackets, lastCc := self.lastCc }
        = .ok ((packetsOf packets).foldl Loop.step
          { pidPackets := self.pidPackets, lastCc := self.lastCc }) := List.foldlM_pure
    rw [hpure]
    rfl

/-- Two buffers of whole packets are booked like their concatenation. -/
theorem foldl_account_append (self : TsAnalyzer) {a : Bytes} (ha : Aligned a) (b : Bytes) :
    (packetsOf (a ++ b)).foldl account self
      = (packetsOf b).foldl account ((packetsOf a).foldl account self) := by
  rw [packetsOf_append ha, List.foldl_append]

end TsAnalyzer

end Recdyud
