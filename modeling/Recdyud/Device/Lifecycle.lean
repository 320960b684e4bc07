import Recdyud.Device.Commands
import Recdyud.Lib.Keeps

/-!
# From opening to closing

`initialize` and `close` are made of commands, with transfers on the other endpoints in between.
Here they are code that raises over the state of a tuner that was claimed: what a command or a
transfer changed before something raised stays changed.

`Channel` says of a property of codec and device what an invariant needs: an exchange keeps it when
the codec goes on to the state behind the frame, and so do the other transfers. Everything a tuner
does keeps such a property, in any order of calls (`lifecycleMachine_keeps`).
-/

namespace Recdyud

open CommandCodec

/-! ## The other endpoints -/

inductive EndpointAddress where
  /-- `EP_COMMAND_OUT` -/
  | commandOut
  /-- `EP_RESPONSE_IN` -/
  | responseIn
  /-- `EP_TS_IN` -/
  | tsIn
  deriving DecidableEq, Repr

/-- `usb.core.USBError` as `clear_halt` raises it. -/
structure HaltError where
  message : String
  backendErrorCode : ℤ
  deriving DecidableEq, Repr

/-- A device with the other transfers of `initialize` and `close`. -/
class UsbDevice (ω : Type) extends Usb ω where
  /-- `clear_halt(endpoint)` -/
  clearHalt : EndpointAddress → ω → Except HaltError Unit × ω
  /-- `read(endpoint, size, timeout=20)` -/
  drainRead : EndpointAddress → ℕ → ω → Except UsbError Bytes × ω
  /-- `usb.util.release_interface` -/
  releaseInterface : ω → Except UsbError Unit × ω
  /-- `usb.util.dispose_resources` -/
  disposeResources : ω → ω

/-! ## Commands -/

/-- `_CMD_INIT` -/
def cmdInit : Bytes :=
  [0x0f, 0xf0, 0xe0, 0x20, 0x00, 0x00, 0x00, 0x00, 0x23, 0x8d, 0xc0, 0xd0, 0x0e, 0xd0, 0x38, 0x75,
    0xe8, 0x38, 0xdf, 0xeb, 0x33, 0x7d, 0x39, 0x52, 0xe3, 0x78, 0xeb, 0xd1, 0xb7, 0x84, 0xef, 0x65,
    0x00, 0x9a, 0x0f, 0x3a]

/-- `_CMD_INIT_NEW` -/
def cmdInitNew : Bytes :=
  [0x0f, 0xf0, 0xe0, 0x20, 0x00, 0x00, 0x00, 0x00, 0x7b, 0x36, 0x51, 0xe5, 0x21, 0x7c, 0x7b, 0x1c,
    0xe8, 0x38, 0xdf, 0xeb, 0x33, 0x7d, 0x39, 0x52, 0xe3, 0x78, 0xeb, 0xd1, 0xb7, 0x84, 0xef, 0x65,
    0x00, 0x00, 0x00, 0x00]

/-- `_cmd` -/
def cmd (code : UInt8) (param : Bytes := List.replicate 4 0) (length : UInt8 := 4) : Bytes :=
  [0x1F, 0xF0, code, length] ++ param

def cmdInitNf : Bytes := cmd 0xE3
def cmdClose : Bytes := cmd 0xE2
def cmdGetFirmwareVersion : Bytes := cmd 0x9F
def cmdGetSerial : Bytes := cmd 0x95
def cmdStartTs : Bytes := cmd 0xB4
def cmdStopTs : Bytes := cmd 0xB5

def segmentModeFullseg : ℕ := 0x00020000

def firmwareNeedsReinit : ℕ := 0x01000502

def tsReadSize : ℕ := 16384

/-- `LIBUSB_ERROR_NO_DEVICE` -/
def libusbErrorNoDevice : ℤ := -4

/-! ## The tuner -/

/-- A tuner behind `_claim`, with the fields its lifecycle uses; `firmware` is the raw version. -/
structure Tuner (ω : Type) where
  channel : DyUd200 ω
  location : String := ""
  claimed : Bool := true
  firmware : Option ℕ := none
  serial : Option String := none

/-- Code of a tuner. -/
abbrev Tuner.Method (ω α : Type) := ExceptT Raised (StateM (Tuner ω)) α

namespace Tuner

/-- Code of the command channel. -/
def onChannel {ω α : Type} (f : DyUd200 ω → Except Raised α × DyUd200 ω) : Method ω α :=
  ExceptT.mk fun s ↦ ((f s.channel).1, { s with channel := (f s.channel).2 })

/-- A transfer on another endpoint. -/
def onDevice {ω α : Type} (f : ω → α × ω) : Method ω α :=
  ExceptT.mk fun s ↦ (.ok (f s.channel.dev).1,
    { s with channel := { s.channel with dev := (f s.channel.dev).2 } })

variable (P : Primitives) {ω : Type} [UsbDevice ω]

def command (cmd : Bytes) (check : Bool := true) : Method ω Bytes :=
  onChannel fun s ↦ s.command P cmd check

/-- `_clear_halt`: only a device that is gone raises. -/
def clearHalt (endpoint : EndpointAddress) : Method ω Unit := do
  match ← onDevice (UsbDevice.clearHalt endpoint) with
  | .ok () => return ()
  | .error e =>
    if e.backendErrorCode = libusbErrorNoDevice then
      throw (.deviceError s!"DY-UD200 {(← get).location} disconnected")

/-- The turns that are left of the loop of `_drain`. -/
def drainTurns (endpoint : EndpointAddress) (size : ℕ) : ℕ → ω → ℕ × ω
  | 0, dev => (0, dev)
  | turns + 1, dev =>
    match UsbDevice.drainRead endpoint size dev with
    | (.error _, dev) => (0, dev)
    | (.ok data, dev) =>
      let (total, dev) := drainTurns endpoint size turns dev
      (data.length + total, dev)

/-- Discard stale data left by a previous (possibly killed) process. -/
def drain (endpoint : EndpointAddress) (size : ℕ) (limit : ℕ := 64) : Method ω ℕ :=
  onDevice (drainTurns endpoint size limit)

def getFirmwareVersion : Method ω ℕ := do
  let res ← command P cmdGetFirmwareVersion false
  return intFromBytes (slice res 2 6)

/-- `decode("ascii", "replace")` -/
def asciiReplace (data : Bytes) : List Char :=
  data.map fun b ↦ if b < 0x80 then Char.ofNat b.toNat else '\uFFFD'

/-- What `str.strip` takes away, of the characters of ASCII. -/
def isSpace (c : Char) : Bool :=
  (0x09 ≤ c.toNat ∧ c.toNat ≤ 0x0D) ∨ (0x1C ≤ c.toNat ∧ c.toNat ≤ 0x20)

/-- `str.strip` -/
def strip (s : List Char) : List Char := ((s.dropWhile isSpace).reverse.dropWhile isSpace).reverse

def getSerialNumber : Method ω String := do
  let res ← command P cmdGetSerial false
  return String.ofList (strip (asciiReplace ((slice res 2 18).takeWhile (· ≠ 0))))

def setSegmentMode (mode : ℕ) : Method ω Unit := do
  let _ ← command P (cmd 0xD1 (toBytes mode 4))

def setFrequency (khz : ℕ) : Method ω Unit := do
  let _ ← command P (cmd 0xD2 (toBytes khz 4 ++ List.replicate 2 0) 6)

def startStreaming : Method ω Unit := do
  let _ ← command P cmdStartTs false

def stopStreaming : Method ω Unit := do
  let _ ← command P cmdStopTs false

/-- Tune to a frequency and start the TS stream. -/
def tune (khz : ℕ) : Method ω Unit := do
  stopStreaming P
  setSegmentMode P segmentModeFullseg
  setFrequency P khz
  startStreaming P

/-- `initialize`: run the initialisation sequence. -/
def initializeTuner : Method ω Unit := do
  [EndpointAddress.commandOut, .responseIn, .tsIn].forM clearHalt
  let _ ← drain .responseIn 512
  let _ ← command P cmdInit false
  stopStreaming P
  let _ ← command P cmdInitNf false
  let firmware ← getFirmwareVersion P
  modify fun s ↦ { s with firmware := some firmware }
  if firmware = firmwareNeedsReinit then
    let _ ← command P cmdClose false
    let _ ← command P cmdInitNew false
    stopStreaming P
    let _ ← command P cmdInitNf false
  let serial ← getSerialNumber P
  modify fun s ↦ { s with serial := some serial }
  setSegmentMode P segmentModeFullseg
  let _ ← drain .tsIn tsReadSize

/-- Release the USB interface without sending any command. -/
def release : Method ω Unit := do
  if (← get).claimed then
    let _ ← onDevice UsbDevice.releaseInterface
    modify fun s ↦ { s with claimed := false }
  onDevice fun dev ↦ ((), UsbDevice.disposeResources dev)

/-- Stop streaming, send the close command and release the device. -/
def close : Method ω Unit := do
  if (← get).claimed then
    tryCatch
      (do
        stopStreaming P
        let _ ← command P cmdClose false)
      fun e ↦
        match e with
        | .deviceError _ => return ()
        | e => throw e
  release

/-- `open_device`, behind the claim: a tuner that cannot be initialised is closed. -/
def openDevice : Method ω Unit :=
  tryCatch (initializeTuner P) fun e ↦ do
    close P
    throw e

end Tuner

/-! ## What all of it keeps -/

/-- A property of codec and device that the transfers keep; behind an exchange, the codec is in the
state that encoding the frame left. -/
structure TransferInvariant (P : Primitives) {ω : Type} [UsbDevice ω]
    (J : CommandCodec → ω → Prop) : Prop where
  exchange : ∀ {codec codec' : CommandCodec} {cmd frame : Bytes} {dev : ω},
    codec.encode P cmd = (.ok frame, codec') → J codec dev →
      J codec' (DyUd200.exchange frame dev).2
  clearHalt : ∀ {codec : CommandCodec} {dev : ω} (endpoint : EndpointAddress),
    J codec dev → J codec (UsbDevice.clearHalt endpoint dev).2
  drainRead : ∀ {codec : CommandCodec} {dev : ω} (endpoint : EndpointAddress) (size : ℕ),
    J codec dev → J codec (UsbDevice.drainRead endpoint size dev).2

/-- Releasing the device keeps it as well. -/
structure ChannelInvariant (P : Primitives) {ω : Type} [UsbDevice ω]
    (J : CommandCodec → ω → Prop) : Prop extends TransferInvariant P J where
  releaseInterface : ∀ {codec : CommandCodec} {dev : ω},
    J codec dev → J codec (UsbDevice.releaseInterface dev).2
  disposeResources : ∀ {codec : CommandCodec} {dev : ω},
    J codec dev → J codec (UsbDevice.disposeResources dev)

/-- A property of the tuner that its commands and transfers keep, and that does not depend on what
`initialize` finds out. -/
structure TunerInvariant (P : Primitives) {ω : Type} [UsbDevice ω] (J : Tuner ω → Prop) :
    Prop where
  command : ∀ (cmd : Bytes) (check : Bool),
    Keeps J (Tuner.command P cmd check : Tuner.Method ω Bytes)
  clearHalt : ∀ endpoint : EndpointAddress,
    Keeps J (Tuner.clearHalt endpoint : Tuner.Method ω Unit)
  drain : ∀ (endpoint : EndpointAddress) (size limit : ℕ),
    Keeps J (Tuner.drain endpoint size limit : Tuner.Method ω ℕ)
  known : ∀ (s : Tuner ω) (firmware : Option ℕ) (serial : Option String),
    J s → J { s with firmware, serial }

namespace TransferInvariant

variable {P : Primitives} {ω : Type} [UsbDevice ω] {J : CommandCodec → ω → Prop}
variable (h : TransferInvariant P J)
include h

theorem command (self : DyUd200 ω) (cmd : Bytes) (check : Bool) (hJ : J self.codec self.dev) :
    J (self.command P cmd check).2.codec (self.command P cmd check).2.dev := by
  rcases hencode : self.codec.encode P cmd with ⟨e | frame, codec⟩
  · rw [DyUd200.command_of_encode_error hencode]
    obtain rfl := encode_of_error hencode
    exact hJ
  · have hnext := h.exchange hencode hJ
    rcases hx : DyUd200.exchange frame self.dev with ⟨_ | raw, dev⟩ <;> rw [hx] at hnext
    · rw [DyUd200.command_of_exchange_error hencode hx]
      exact hnext
    · rw [DyUd200.command_of_exchange_ok hencode hx]
      exact hnext

theorem bcasReset (self : DyUd200 ω) (hJ : J self.codec self.dev) :
    J (self.bcasReset P).2.codec (self.bcasReset P).2.dev := by
  have hdeactivate := h.command self cmdBcasDeactivate false hJ
  rw [DyUd200.bcasReset]
  rcases hd : self.command P cmdBcasDeactivate false with ⟨_ | _, s⟩
  · rwa [hd] at hdeactivate
  rw [hd] at hdeactivate
  have hactivate := h.command s cmdBcasActivate false hdeactivate
  dsimp only
  rcases ha : s.command P cmdBcasActivate false with ⟨_ | _, s'⟩ <;> rwa [ha] at hactivate

theorem bcasTransmit (self : DyUd200 ω) (apdu : Bytes) (retries : ℕ)
    (hJ : J self.codec self.dev) :
    J (self.bcasTransmit P apdu retries).2.codec (self.bcasTransmit P apdu retries).2.dev := by
  refine DyUd200.bcasAttempts_keeps (J := fun s ↦ J s.codec s.dev) (fun s hs ↦ ?_) _ _ hJ
  rw [DyUd200.bcasAttempt_snd]
  split
  · exact hs
  · exact h.command s.flipPcb _ false hs

end TransferInvariant

/-- A call on a tuner. -/
inductive TunerCall where
  | openDevice
  | initializeTuner
  | close
  | release
  | tune (khz : ℕ)
  | command (cmd : Bytes) (check : Bool)
  | bcasReset
  | bcasTransmit (apdu : Bytes) (retries : ℕ)
  deriving DecidableEq, Repr

section OnChannel

variable {ω : Type} {J : CommandCodec → ω → Prop}

/-- The property, of the channel of a tuner. -/
def OnChannel (J : CommandCodec → ω → Prop) (s : Tuner ω) : Prop := J s.channel.codec s.channel.dev

theorem keeps_onDevice {α : Type} {f : ω → α × ω}
    (hf : ∀ {codec : CommandCodec} {dev : ω}, J codec dev → J codec (f dev).2) :
    Keeps (OnChannel J) (Tuner.onDevice f : Tuner.Method ω α) := fun _ hs ↦ hf hs

/-- What does not touch the channel. -/
theorem keeps_modify {f : Tuner ω → Tuner ω} (hf : ∀ s, (f s).channel = s.channel) :
    Keeps (OnChannel J) (modify f : Tuner.Method ω PUnit) := by
  refine Keeps.of_modify fun s hs ↦ ?_
  rwa [OnChannel, hf s]

end OnChannel

section Lifecycle

variable {P : Primitives} {ω : Type} [UsbDevice ω]

/-- The code of a call. -/
def TunerCall.code (P : Primitives) : TunerCall → Tuner.Method ω Unit
  | .openDevice => Tuner.openDevice P
  | .initializeTuner => Tuner.initializeTuner P
  | .close => Tuner.close P
  | .release => Tuner.release
  | .tune khz => Tuner.tune P khz
  | .command cmd check => do let _ ← Tuner.command P cmd check
  | .bcasReset => Tuner.onChannel fun s ↦ s.bcasReset P
  | .bcasTransmit apdu retries => do
    let _ ← Tuner.onChannel fun s ↦ s.bcasTransmit P apdu retries

/-- The tuner after a call, whether or not it raised. -/
def TunerCall.perform (P : Primitives) (self : Tuner ω) (call : TunerCall) : Tuner ω :=
  ((call.code P).run.run self).2

/-- The runs of calls on a tuner that was just claimed. -/
def lifecycleMachine (P : Primitives) (dev : ω) : Machine (Tuner ω) TunerCall where
  init := { channel := { dev } }
  step self call := some (call.perform P self)

section Methods

variable {J : Tuner ω → Prop} (h : TunerInvariant P J)
include h

theorem keeps_stopStreaming : Keeps J (Tuner.stopStreaming P : Tuner.Method ω Unit) :=
  (h.command _ _).bind fun _ ↦ .of_pure _

theorem keeps_setSegmentMode (mode : ℕ) :
    Keeps J (Tuner.setSegmentMode P mode : Tuner.Method ω Unit) :=
  (h.command _ _).bind fun _ ↦ .of_pure _

theorem keeps_tune (khz : ℕ) : Keeps J (Tuner.tune P khz : Tuner.Method ω Unit) := by
  refine (keeps_stopStreaming h).bind fun _ ↦ (keeps_setSegmentMode h _).bind fun _ ↦ ?_
  refine Keeps.bind ((h.command _ _).bind fun _ ↦ .of_pure _) fun _ ↦ ?_
  exact (h.command _ _).bind fun _ ↦ .of_pure _

theorem keeps_initializeTuner : Keeps J (Tuner.initializeTuner P : Tuner.Method ω Unit) := by
  refine (Keeps.forM h.clearHalt _).bind fun _ ↦ ?_
  refine (h.drain _ _ _).bind fun _ ↦ ?_
  refine (h.command _ _).bind fun _ ↦ ?_
  refine (keeps_stopStreaming h).bind fun _ ↦ ?_
  refine (h.command _ _).bind fun _ ↦ ?_
  refine ((h.command _ _).bind fun _ ↦ .of_pure _).bind fun firmware ↦ ?_
  refine Keeps.bind (Keeps.of_modify fun s hs ↦ h.known s (some firmware) s.serial hs) fun _ ↦ ?_
  -- what follows the branch for one firmware
  have hrest : Keeps J (do
      let serial ← Tuner.getSerialNumber P
      modify fun s ↦ { s with serial := some serial }
      Tuner.setSegmentMode P segmentModeFullseg
      let _ ← Tuner.drain .tsIn tsReadSize : Tuner.Method ω Unit) := by
    refine ((h.command _ _).bind fun _ ↦ .of_pure _).bind fun serial ↦ ?_
    refine Keeps.bind (Keeps.of_modify fun s hs ↦ h.known s s.firmware (some serial) hs) fun _ ↦ ?_
    refine (keeps_setSegmentMode h _).bind fun _ ↦ ?_
    exact (h.drain _ _ _).bind fun _ ↦ .of_pure _
  refine .ite ?_ hrest
  refine (h.command _ _).bind fun _ ↦ ?_
  refine (h.command _ _).bind fun _ ↦ ?_
  refine (keeps_stopStreaming h).bind fun _ ↦ ?_
  exact (h.command _ _).bind fun _ ↦ hrest

end Methods

variable {J : CommandCodec → ω → Prop}

section Transfers

variable (h : TransferInvariant P J)
include h

theorem keeps_command (cmd : Bytes) (check : Bool) :
    Keeps (OnChannel J) (Tuner.command P cmd check : Tuner.Method ω Bytes) :=
  fun s hs ↦ h.command s.channel cmd check hs

theorem keeps_clearHalt (endpoint : EndpointAddress) :
    Keeps (OnChannel J) (Tuner.clearHalt endpoint : Tuner.Method ω Unit) := by
  refine Keeps.bind (keeps_onDevice fun hJ ↦ h.clearHalt endpoint hJ) fun result ↦ ?_
  cases result with
  | ok => exact .of_pure _
  | error e => exact .ite (Keeps.of_get.bind fun _ ↦ .of_throw _) (.of_pure _)

theorem keeps_drainTurns (endpoint : EndpointAddress) (size turns : ℕ) {codec : CommandCodec}
    {dev : ω} (hJ : J codec dev) : J codec (Tuner.drainTurns endpoint size turns dev).2 := by
  induction turns generalizing dev with
  | zero => exact hJ
  | succ turns ih =>
    have hnext := h.drainRead endpoint size hJ
    rw [Tuner.drainTurns]
    rcases hread : UsbDevice.drainRead endpoint size dev with ⟨_ | data, dev'⟩ <;>
      rw [hread] at hnext
    · exact hnext
    · exact ih hnext

theorem keeps_drain (endpoint : EndpointAddress) (size limit : ℕ) :
    Keeps (OnChannel J) (Tuner.drain endpoint size limit : Tuner.Method ω ℕ) :=
  keeps_onDevice fun hJ ↦ keeps_drainTurns h endpoint size limit hJ

theorem TransferInvariant.tuner : TunerInvariant P (OnChannel J) where
  command := keeps_command h
  clearHalt := keeps_clearHalt h
  drain := keeps_drain h
  known _ _ _ hs := hs

end Transfers

variable (h : ChannelInvariant P J)
include h

theorem keeps_release : Keeps (OnChannel J) (Tuner.release : Tuner.Method ω Unit) := by
  have hdispose : Keeps (OnChannel J) (Tuner.onDevice fun dev ↦ ((), UsbDevice.disposeResources dev)
      : Tuner.Method ω Unit) := keeps_onDevice fun hJ ↦ h.disposeResources hJ
  refine Keeps.of_get.bind fun _ ↦ .ite ?_ hdispose
  refine Keeps.bind (keeps_onDevice fun hJ ↦ h.releaseInterface hJ) fun _ ↦ ?_
  exact (keeps_modify fun _ ↦ rfl).bind fun _ ↦ hdispose

theorem keeps_close : Keeps (OnChannel J) (Tuner.close P : Tuner.Method ω Unit) := by
  refine Keeps.of_get.bind fun _ ↦ .ite ?_ (keeps_release h)
  refine Keeps.bind (.tryCatch ?_ fun e ↦ ?_) fun _ ↦ keeps_release h
  · refine (keeps_stopStreaming h.toTransferInvariant.tuner).bind fun _ ↦ ?_
    exact (keeps_command h.toTransferInvariant _ _).bind fun _ ↦ .of_pure _
  · cases e with
    | deviceError => exact .of_pure _
    | indexError => exact .of_throw _
    | valueError => exact .of_throw _

theorem keeps_openDevice : Keeps (OnChannel J) (Tuner.openDevice P : Tuner.Method ω Unit) :=
  .tryCatch (keeps_initializeTuner h.toTransferInvariant.tuner)
    fun _ ↦ (keeps_close h).bind fun _ ↦ .of_throw _

theorem keeps_code (call : TunerCall) :
    Keeps (OnChannel J) (call.code P : Tuner.Method ω Unit) := by
  cases call with
  | openDevice => exact keeps_openDevice h
  | initializeTuner => exact keeps_initializeTuner h.toTransferInvariant.tuner
  | close => exact keeps_close h
  | release => exact keeps_release h
  | tune khz => exact keeps_tune h.toTransferInvariant.tuner khz
  | command cmd check =>
    exact (keeps_command h.toTransferInvariant cmd check).bind fun _ ↦ .of_pure _
  | bcasReset => exact fun s hs ↦ h.bcasReset s.channel hs
  | bcasTransmit apdu retries =>
    refine Keeps.bind ?_ fun _ ↦ .of_pure _
    exact fun s hs ↦ h.bcasTransmit s.channel apdu retries hs

/-- **Runs** of a tuner keep what its transfers keep. -/
theorem lifecycleMachine_keeps {dev : ω} (hinit : J {} dev) {calls : List TunerCall} {s : Tuner ω}
    (hrun : (lifecycleMachine P dev).Run calls s) : J s.channel.codec s.channel.dev := by
  refine Machine.Run.induction (M := lifecycleMachine P dev) (I := fun _ s ↦ OnChannel J s)
    hinit ?_ hrun
  intro calls s call s' _ hs hstep
  obtain rfl := Option.some.inj hstep
  exact keeps_code h call s hs

end Lifecycle

end Recdyud
