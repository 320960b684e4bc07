import Recdyud.Device.Lifecycle

/-!
# Reading the transport stream

`read_ts` makes one bulk transfer. A transfer that fails resets the endpoint and returns what
arrived before it failed; only a device that is gone, or ten failures in a row, raise. "In a row"
means: with no transfer in between that delivered data. A timeout that delivered nothing is neither
a failure nor does it end the row, and a transfer that finds the device gone is not counted at all.

A run is a sequence of calls on one tuner (`readMachine`), each of them an event: what the transfer
and the reset reported, and what the call made of it. When a call raises is a property of the events
so far (`ReadPolicy`).
-/

namespace Recdyud

/-- `LIBUSB_ERROR_TIMEOUT` -/
def libusbErrorTimeout : ℤ := -7

/-- Consecutive failed TS reads after which `read_ts()` gives up. -/
def tsMaxConsecutiveErrors : ℕ := 10

/-- `_LIBUSB_ERROR_NAMES.get(ret, ret)` -/
def libusbErrorName (ret : ℤ) : String :=
  if ret = -1 then "EIO"
  else if ret = -4 then "NO_DEVICE"
  else if ret = -7 then "TIMEOUT"
  else if ret = -8 then "OVERFLOW"
  else if ret = -9 then "PIPE (stall)"
  else toString ret

/-- A device with the bulk transfers of the TS endpoint. -/
class TsDevice (ω : Type) extends UsbDevice ω where
  /-- `_bulk_read(EP_TS_IN, buffer, timeout)`: the libusb error code and the bytes transferred. -/
  bulkRead : ω → (ℤ × ℕ) × ω

/-- A tuner with its error counters. -/
structure TsTuner (ω : Type) extends Tuner ω where
  tsErrors : ℕ := 0
  tsConsecutiveErrors : ℕ := 0

namespace TsTuner

variable {ω : Type} [TsDevice ω]

/-- The libusb error code of the next transfer. -/
def ret (self : TsTuner ω) : ℤ := (TsDevice.bulkRead self.channel.dev).1.1

/-- The bytes transferred by the next transfer. -/
def transferred (self : TsTuner ω) : ℕ := (TsDevice.bulkRead self.channel.dev).1.2

/-- The tuner behind the transfer. -/
def afterTransfer (self : TsTuner ω) : TsTuner ω :=
  { self with channel := { self.channel with dev := (TsDevice.bulkRead self.channel.dev).2 } }

/-- Read TS data; returns the number of bytes read (0 on timeout). -/
def readTs (self : TsTuner ω) : Except Raised ℕ × TsTuner ω :=
  let ret := self.ret
  let n := self.transferred
  let self := self.afterTransfer
  if ret = 0 ∨ ret = libusbErrorTimeout then
    (.ok n, if n ≠ 0 then { self with tsConsecutiveErrors := 0 } else self)
  else
    let reason := s!"libusb error {libusbErrorName ret}, {n} bytes transferred"
    if ret = libusbErrorNoDevice then
      (.error (.deviceError s!"DY-UD200 {self.location} disconnected"), self)
    else
      let self := { self with
        tsErrors := self.tsErrors + 1, tsConsecutiveErrors := self.tsConsecutiveErrors + 1 }
      if self.tsConsecutiveErrors ≥ tsMaxConsecutiveErrors then
        (.error (.deviceError
          s!"TS read failed {self.tsConsecutiveErrors} times in a row: {reason}"), self)
      else
        match (Tuner.clearHalt .tsIn).run.run self.toTuner with
        | (.error e, tuner) => (.error e, { self with toTuner := tuner })
        | (.ok (), tuner) => (.ok n, { self with toTuner := tuner })

end TsTuner

/-! ## Events -/

/-- A call of `read_ts`: what the transfer reported, what the reset of the endpoint reports behind
it, and what came out. -/
structure ReadEvent where
  ret : ℤ
  transferred : ℕ
  halt : Except HaltError Unit
  result : Except Raised ℕ
  deriving DecidableEq

namespace ReadEvent

/-- The transfer failed: neither success nor timeout. -/
def failed (e : ReadEvent) : Bool := e.ret != 0 && e.ret != libusbErrorTimeout

/-- The transfer failed, but the device was there. -/
def errored (e : ReadEvent) : Bool := e.failed && e.ret != libusbErrorNoDevice

/-- The transfer did not fail and delivered data. -/
def delivered (e : ReadEvent) : Bool := !e.failed && e.transferred != 0

/-- The reset of the endpoint reports that the device is gone. -/
def haltGone (e : ReadEvent) : Bool :=
  match e.halt with
  | .ok () => false
  | .error h => h.backendErrorCode == libusbErrorNoDevice

end ReadEvent

/-- The events that count since the last one that delivered data, or since the start. -/
def countSinceData (counts : ReadEvent → Bool) (events : List ReadEvent) : ℕ :=
  (events.reverse.takeWhile fun e ↦ !e.delivered).countP counts

theorem countSinceData_concat {counts : ReadEvent → Bool} (events : List ReadEvent)
    (e : ReadEvent) :
    countSinceData counts (events ++ [e]) =
      if e.delivered then 0 else countSinceData counts events + if counts e then 1 else 0 := by
  rw [countSinceData, List.reverse_concat, List.takeWhile_cons]
  cases e.delivered with
  | true => rfl
  | false =>
    rw [Bool.not_false, if_pos rfl, List.countP_cons]
    rfl

/-- The device is gone, or the tenth failure in a row; `counts` says which failures count. -/
def GivesUp (counts : ReadEvent → Bool) (prior : List ReadEvent) (e : ReadEvent) : Prop :=
  e.ret = libusbErrorNoDevice ∨ (e.failed ∧ e.haltGone)
    ∨ (counts e ∧ 10 ≤ countSinceData counts (prior ++ [e]))

/-- When a call raises, given the calls before it, and what it returns otherwise. -/
structure ReadPolicy (counts : ReadEvent → Bool) (prior : List ReadEvent) (e : ReadEvent) :
    Prop where
  raises_iff : (∃ message, e.result = .error (.deviceError message)) ↔ GivesUp counts prior e
  returns : ¬GivesUp counts prior e → e.result = .ok e.transferred

theorem ReadPolicy.of_raised {counts : ReadEvent → Bool} {prior : List ReadEvent} {e : ReadEvent}
    (h : GivesUp counts prior e) (hresult : ∃ message, e.result = .error (.deviceError message)) :
    ReadPolicy counts prior e :=
  ⟨⟨fun _ ↦ h, fun _ ↦ hresult⟩, fun hnot ↦ absurd h hnot⟩

theorem ReadPolicy.of_ok {counts : ReadEvent → Bool} {prior : List ReadEvent} {e : ReadEvent}
    (h : ¬GivesUp counts prior e) (hresult : e.result = .ok e.transferred) :
    ReadPolicy counts prior e := by
  refine ⟨⟨?_, fun hgives ↦ absurd hgives h⟩, fun _ ↦ hresult⟩
  rintro ⟨message, hmessage⟩
  rw [hresult] at hmessage
  cases hmessage

section Runs

variable {ω : Type} [TsDevice ω]

/-- The event of the next call. -/
def TsTuner.readEvent (s : TsTuner ω) : ReadEvent where
  ret := s.ret
  transferred := s.transferred
  halt := (UsbDevice.clearHalt .tsIn s.afterTransfer.channel.dev).1
  result := s.readTs.1

/-- The runs of calls on a tuner whose counters are zero. -/
def readMachine (tuner : Tuner ω) : Machine (TsTuner ω) ReadEvent where
  init := { tuner with }
  step s e := if e = s.readEvent then some s.readTs.2 else none

namespace TsTuner

variable {s : TsTuner ω}

/-! ### The outcomes of a call -/

/-- What a reset of the endpoint raises. -/
theorem run_clearHalt (tuner : Tuner ω) (endpoint : EndpointAddress) :
    ((Tuner.clearHalt endpoint).run.run tuner).1 =
      match (UsbDevice.clearHalt endpoint tuner.channel.dev).1 with
      | .ok () => .ok ()
      | .error e =>
        if e.backendErrorCode = libusbErrorNoDevice then
          .error (.deviceError s!"DY-UD200 {tuner.location} disconnected")
        else .ok () := by
  have hstart : (Tuner.onDevice (UsbDevice.clearHalt endpoint)
      : Tuner.Method ω (Except HaltError Unit)).run.run tuner
        = (.ok (UsbDevice.clearHalt endpoint tuner.channel.dev).1,
          { tuner with channel := { tuner.channel with
            dev := (UsbDevice.clearHalt endpoint tuner.channel.dev).2 } }) := rfl
  rw [Tuner.clearHalt, ExceptT.run_bind, StateT.run_bind, hstart]
  rcases (UsbDevice.clearHalt endpoint tuner.channel.dev).1 with e | _
  · dsimp only [Id.run, bind]
    by_cases hgone : e.backendErrorCode = libusbErrorNoDevice
    · rw [if_pos hgone, if_pos hgone]
      rfl
    · rw [if_neg hgone, if_neg hgone]
      rfl
  · rfl

/-- Success or timeout. -/
theorem readTs_of_not_failed (h : s.readEvent.failed = false) :
    s.readTs.1 = .ok s.transferred ∧ s.readTs.2.tsErrors = s.tsErrors
      ∧ s.readTs.2.tsConsecutiveErrors =
        if s.transferred ≠ 0 then 0 else s.tsConsecutiveErrors := by
  have hret : s.ret = 0 ∨ s.ret = libusbErrorTimeout := by
    simpa [ReadEvent.failed, readEvent, or_iff_not_imp_left] using h
  rw [readTs]
  dsimp only
  rw [if_pos hret]
  refine ⟨rfl, ?_, ?_⟩
  · split <;> rfl
  · split <;> rfl

/-- The device is gone. -/
theorem readTs_of_noDevice (h : s.ret = libusbErrorNoDevice) :
    (∃ message, s.readTs.1 = .error (.deviceError message)) ∧ s.readTs.2.tsErrors = s.tsErrors
      ∧ s.readTs.2.tsConsecutiveErrors = s.tsConsecutiveErrors := by
  have hret : ¬(s.ret = 0 ∨ s.ret = libusbErrorTimeout) := by
    rw [h]
    decide
  rw [readTs]
  dsimp only
  rw [if_neg hret, if_pos h]
  exact ⟨⟨_, rfl⟩, rfl, rfl⟩

/-- What the reset behind a failure raises. -/
theorem run_clearHalt_of_haltGone (h : s.readEvent.haltGone = true) :
    ((Tuner.clearHalt .tsIn).run.run s.afterTransfer.toTuner).1
      = .error (.deviceError s!"DY-UD200 {s.location} disconnected") := by
  rw [run_clearHalt]
  rw [ReadEvent.haltGone, readEvent] at h
  dsimp only at h
  rcases hhalt : (UsbDevice.clearHalt .tsIn s.afterTransfer.channel.dev).1 with e | _
  · rw [hhalt] at h
    exact if_pos (eq_of_beq h)
  · rw [hhalt] at h
    cases h

theorem run_clearHalt_of_not_haltGone (h : s.readEvent.haltGone = false) :
    ((Tuner.clearHalt .tsIn).run.run s.afterTransfer.toTuner).1 = .ok () := by
  rw [run_clearHalt]
  rw [ReadEvent.haltGone, readEvent] at h
  dsimp only at h
  rcases hhalt : (UsbDevice.clearHalt .tsIn s.afterTransfer.channel.dev).1 with e | _
  · rw [hhalt] at h
    exact if_neg (ne_of_beq_false h)
  · rfl

/-- The transfer failed otherwise. -/
theorem readTs_of_errored (h : s.readEvent.errored = true) :
    s.readTs.2.tsErrors = s.tsErrors + 1
      ∧ s.readTs.2.tsConsecutiveErrors = s.tsConsecutiveErrors + 1
      ∧ if 10 ≤ s.tsConsecutiveErrors + 1 ∨ s.readEvent.haltGone then
          ∃ message, s.readTs.1 = .error (.deviceError message)
        else s.readTs.1 = .ok s.transferred := by
  obtain ⟨hret, hgone⟩ : ¬(s.ret = 0 ∨ s.ret = libusbErrorTimeout)
      ∧ s.ret ≠ libusbErrorNoDevice := by
    simpa [ReadEvent.errored, ReadEvent.failed, readEvent] using h
  rw [readTs]
  dsimp only
  rw [if_neg hret, if_neg hgone]
  by_cases hten : 10 ≤ s.tsConsecutiveErrors + 1
  · have hten' : s.afterTransfer.tsConsecutiveErrors + 1 ≥ tsMaxConsecutiveErrors := hten
    rw [if_pos hten', if_pos (.inl hten)]
    exact ⟨rfl, rfl, _, rfl⟩
  · have hten' : ¬s.afterTransfer.tsConsecutiveErrors + 1 ≥ tsMaxConsecutiveErrors := hten
    rw [if_neg hten']
    rcases hhalt : s.readEvent.haltGone with _ | _
    · have hrun := run_clearHalt_of_not_haltGone hhalt
      rcases hclear : (Tuner.clearHalt .tsIn).run.run s.afterTransfer.toTuner with ⟨e | _, tuner⟩
      · rw [hclear] at hrun
        cases hrun
      · rw [if_neg (by simp [hten])]
        exact ⟨rfl, rfl, rfl⟩
    · have hrun := run_clearHalt_of_haltGone hhalt
      rcases hclear : (Tuner.clearHalt .tsIn).run.run s.afterTransfer.toTuner with ⟨e | _, tuner⟩
      · rw [hclear] at hrun
        obtain rfl := Except.error.inj hrun
        rw [if_pos (.inr rfl)]
        exact ⟨rfl, rfl, _, rfl⟩
      · rw [hclear] at hrun
        cases hrun

/-! ### One call -/

/-- A call keeps to the policy, and the counters count what the policy counts. -/
structure KeepsToPolicy (prior : List ReadEvent) (s : TsTuner ω) : Prop where
  policy : ReadPolicy ReadEvent.errored prior s.readEvent
  errors : s.readTs.2.tsErrors = s.tsErrors + if s.readEvent.errored then 1 else 0
  consecutive : s.readTs.2.tsConsecutiveErrors
    = countSinceData ReadEvent.errored (prior ++ [s.readEvent])

section OneCall

variable {prior : List ReadEvent}

theorem keepsToPolicy_of_not_failed (hfailed : s.readEvent.failed = false)
    (h : s.tsConsecutiveErrors = countSinceData ReadEvent.errored prior) :
    s.KeepsToPolicy prior := by
  obtain ⟨hresult, herrors, hconsecutive⟩ := readTs_of_not_failed hfailed
  have herrored : s.readEvent.errored = false := by rw [ReadEvent.errored, hfailed]; rfl
  have hdelivered : s.readEvent.delivered = true ↔ s.transferred ≠ 0 := by
    rw [ReadEvent.delivered, hfailed]
    simp [readEvent]
  refine ⟨.of_ok ?_ hresult, ?_, ?_⟩
  · rintro (hret | ⟨hf, -⟩ | ⟨he, -⟩)
    · rw [ReadEvent.failed, hret] at hfailed
      revert hfailed
      decide
    · rw [hfailed] at hf
      cases hf
    · rw [herrored] at he
      cases he
  · rw [herrors, herrored]
    rfl
  · rw [hconsecutive, countSinceData_concat, herrored, h]
    simp only [hdelivered, Bool.false_eq_true, if_false, Nat.add_zero]

/-- A transfer that failed ends no row. -/
theorem countSinceData_of_failed (hfailed : s.readEvent.failed = true)
    (h : s.tsConsecutiveErrors = countSinceData ReadEvent.errored prior) :
    countSinceData ReadEvent.errored (prior ++ [s.readEvent])
      = s.tsConsecutiveErrors + if s.readEvent.errored then 1 else 0 := by
  have hdelivered : s.readEvent.delivered = false := by rw [ReadEvent.delivered, hfailed]; rfl
  rw [countSinceData_concat, hdelivered, h]
  rfl

theorem keepsToPolicy_of_noDevice (hgone : s.ret = libusbErrorNoDevice)
    (h : s.tsConsecutiveErrors = countSinceData ReadEvent.errored prior) :
    s.KeepsToPolicy prior := by
  obtain ⟨hresult, herrors, hconsecutive⟩ := readTs_of_noDevice hgone
  have hret : s.readEvent.ret = libusbErrorNoDevice := hgone
  have hfailed : s.readEvent.failed = true := by rw [ReadEvent.failed, hret]; rfl
  have herrored : s.readEvent.errored = false := by rw [ReadEvent.errored, hfailed, hret]; rfl
  refine ⟨.of_raised (.inl hgone) hresult, ?_, ?_⟩
  · rw [herrors, herrored]
    rfl
  · rw [hconsecutive, countSinceData_of_failed hfailed h, herrored]
    rfl

theorem keepsToPolicy_of_errored (herrored : s.readEvent.errored = true)
    (h : s.tsConsecutiveErrors = countSinceData ReadEvent.errored prior) :
    s.KeepsToPolicy prior := by
  obtain ⟨herrors, hconsecutive, hresult⟩ := readTs_of_errored herrored
  obtain ⟨hfailed, hgone⟩ := Bool.and_eq_true_iff.mp herrored
  have hnext := countSinceData_of_failed hfailed h
  rw [herrored, if_pos rfl] at hnext
  refine ⟨?_, ?_, hconsecutive.trans hnext.symm⟩
  · by_cases hgives : 10 ≤ s.tsConsecutiveErrors + 1 ∨ s.readEvent.haltGone = true
    · rw [if_pos hgives] at hresult
      refine .of_raised ?_ hresult
      rcases hgives with hten | hhalt
      · exact .inr (.inr ⟨herrored, hnext.symm ▸ hten⟩)
      · exact .inr (.inl ⟨hfailed, hhalt⟩)
    · rw [if_neg hgives] at hresult
      refine .of_ok ?_ hresult
      rintro (hret | ⟨-, hhalt⟩ | ⟨-, hten⟩)
      · exact bne_iff_ne.mp hgone hret
      · exact hgives (.inr hhalt)
      · exact hgives (.inl (hnext ▸ hten))
  · rw [herrors, herrored]
    rfl

/-- **One call** keeps to the policy. -/
theorem readPolicy_step (h : s.tsConsecutiveErrors = countSinceData ReadEvent.errored prior) :
    s.KeepsToPolicy prior := by
  rcases hfailed : s.readEvent.failed with _ | _
  · exact keepsToPolicy_of_not_failed hfailed h
  by_cases hgone : s.ret = libusbErrorNoDevice
  · exact keepsToPolicy_of_noDevice hgone h
  · have herrored : s.readEvent.errored = true :=
      Bool.and_eq_true_iff.mpr ⟨hfailed, bne_iff_ne.mpr hgone⟩
    exact keepsToPolicy_of_errored herrored h

end OneCall

end TsTuner

/-! ## Runs -/

/-- No call is refused: there are runs of any length. -/
theorem exists_run (tuner : Tuner ω) (k : ℕ) :
    ∃ events s, (readMachine tuner).Run events s ∧ events.length = k := by
  induction k with
  | zero => exact ⟨[], _, rfl, rfl⟩
  | succ k ih =>
    obtain ⟨events, s, hrun, hlen⟩ := ih
    refine ⟨events ++ [s.readEvent], s.readTs.2, Machine.run_concat.mpr ⟨s, hrun, if_pos rfl⟩, ?_⟩
    rw [List.length_append, hlen, List.length_singleton]

/-- A step is the next call. -/
theorem readMachine_step {tuner : Tuner ω} {s s' : TsTuner ω} {e : ReadEvent}
    (h : (readMachine tuner).step s e = some s') : e = s.readEvent ∧ s' = s.readTs.2 := by
  rw [readMachine] at h
  dsimp only at h
  split at h
  · rename_i he
    exact ⟨he, (Option.some.inj h).symm⟩
  · cases h

/-- The counters count the failures of the run. -/
theorem counters_of_run {tuner : Tuner ω} {events : List ReadEvent} {s : TsTuner ω}
    (h : (readMachine tuner).Run events s) :
    s.tsErrors = events.countP ReadEvent.errored
    ∧ s.tsConsecutiveErrors = countSinceData ReadEvent.errored events := by
  refine Machine.Run.induction (M := readMachine tuner)
    (I := fun events s ↦ s.tsErrors = events.countP ReadEvent.errored
      ∧ s.tsConsecutiveErrors = countSinceData ReadEvent.errored events) ⟨rfl, rfl⟩ ?_ h
  rintro events s e s' - ⟨herrors, hconsecutive⟩ hstep
  obtain ⟨rfl, rfl⟩ := readMachine_step hstep
  have hcall := TsTuner.readPolicy_step hconsecutive
  refine ⟨?_, hcall.consecutive⟩
  rw [hcall.errors, herrors, List.countP_append, List.countP_singleton]

/-- **The error policy of `read_ts` over whole runs**: a call raises exactly when its transfer or
the reset behind its failure reports that the device is gone, or when its transfer failed otherwise
for at least the tenth time since data was delivered; any other call returns the number of bytes
transferred. `ts_errors` is the number of transfers that failed with the device there. -/
theorem readTs_policy {tuner : Tuner ω} {events : List ReadEvent} {s : TsTuner ω}
    (h : (readMachine tuner).Run events s) :
    (∀ prior e rest, events = prior ++ e :: rest → ReadPolicy ReadEvent.errored prior e)
    ∧ s.tsErrors = events.countP ReadEvent.errored := by
  refine ⟨?_, (counters_of_run h).1⟩
  rintro prior e rest rfl
  obtain ⟨s₁, s₂, hprior, hstep⟩ := h.exists_front
  obtain ⟨rfl, -⟩ := readMachine_step hstep
  exact (TsTuner.readPolicy_step (counters_of_run hprior).2).policy

end Runs

/-- A device whose transfers are written down beforehand; behind them it has nothing to send. -/
structure TransferScript where
  transfers : List (ℤ × ℕ)
  deriving DecidableEq, Repr

instance : TsDevice TransferScript where
  write _ dev := (.ok (), dev)
  read dev := (.ok [], dev)
  clearHalt _ dev := (.ok (), dev)
  drainRead _ _ dev := (.ok [], dev)
  releaseInterface dev := (.ok (), dev)
  disposeResources dev := dev
  bulkRead dev :=
    match dev.transfers with
    | [] => ((libusbErrorTimeout, 0), dev)
    | t :: transfers => (t, ⟨transfers⟩)

def scriptedTuner (transfers : List (ℤ × ℕ)) : Tuner TransferScript where
  channel := { dev := ⟨transfers⟩ }

/-- A transfer that fails part way, a timeout, and data. -/
theorem readTs_policy_partial :
    ReadPolicy ReadEvent.errored [⟨-1, 512, .ok (), .ok 512⟩, ⟨-7, 0, .ok (), .ok 0⟩]
      ⟨0, 16384, .ok (), .ok 16384⟩ := by
  have hrun : (readMachine (scriptedTuner [(-1, 512), (-7, 0), (0, 16384)])).Run
      [⟨-1, 512, .ok (), .ok 512⟩, ⟨-7, 0, .ok (), .ok 0⟩, ⟨0, 16384, .ok (), .ok 16384⟩]
      ⟨scriptedTuner [], 1, 0⟩ := rfl
  exact (readTs_policy hrun).1 [_, _] _ [] rfl

/-- Nine transfers that find the device gone do not count: the failure behind them is no tenth
one. -/
theorem not_readPolicy_failed :
    ¬∀ (tuner : Tuner TransferScript) (events : List ReadEvent) (s : TsTuner TransferScript),
      (readMachine tuner).Run events s → ∀ prior e rest, events = prior ++ e :: rest →
        ReadPolicy ReadEvent.failed prior e := by
  intro h
  have hrun : (readMachine (scriptedTuner (List.replicate 9 (-4, 0) ++ [(-1, 0)]))).Run
      (List.replicate 9 ⟨-4, 0, .ok (), .error (.deviceError "DY-UD200  disconnected")⟩
        ++ [⟨-1, 0, .ok (), .ok 0⟩])
      ⟨scriptedTuner [], 1, 1⟩ := rfl
  obtain ⟨message, hmessage⟩ := (h _ _ _ hrun _ _ [] rfl).raises_iff.mpr
    (.inr (.inr ⟨by decide, by decide⟩))
  cases hmessage

end Recdyud
