import Recdyud.Lib.Machine
import Recdyud.Protocol.Codec

/-!
# The command channel of the tuner

`DyUd200.command` encodes a command, writes the frame to one endpoint and reads the response from
another; `bcas_reset` and `bcas_transmit` are made of such commands. The two endpoints are an
instance of `Usb`: a write or a read may raise, and changes the state `ω` behind them.

Each method returns the tuner next to its result, since what it has changed stays changed when it
raises. The lock is not modelled: the calls of one tuner are made one after the other.
-/

namespace Recdyud

open CommandCodec

/-- An exception out of a method of the tuner, with its text. -/
inductive Raised where
  | indexError
  | valueError (message : String)
  | deviceError (message : String)
  deriving DecidableEq, Repr

/-- `usb.core.USBError` -/
structure UsbError where
  message : String
  deriving DecidableEq, Repr

/-- The endpoints of the command channel. -/
class Usb (ω : Type) where
  /-- `write(EP_COMMAND_OUT, frame, timeout=timeout)` -/
  write : Bytes → ω → Except UsbError Unit × ω
  /-- `read(EP_RESPONSE_IN, 512, timeout=timeout)` -/
  read : ω → Except UsbError Bytes × ω

/-- The state of a tuner that the command methods use. -/
structure DyUd200 (ω : Type) where
  dev : ω
  codec : CommandCodec := {}
  bcasPcb : UInt8 := 0x00
  deriving DecidableEq

def cmdBcasDeactivate : Bytes := [0x1f, 0xf0, 0xf0, 0x05, 0x02, 0x00, 0x42, 0x00, 0x00]

def cmdBcasActivate : Bytes := [0x1f, 0xf0, 0xf0, 0x05, 0x02, 0x00, 0x41, 0x00, 0x00]

/-- `f"{b:#04x}"` -/
def hex04 (b : UInt8) : String :=
  String.ofList ['0', 'x', Nat.digitChar (b.toNat / 16), Nat.digitChar (b.toNat % 16)]

/-- `DeviceError(f"command {cmd[2]:#04x}{text}")` -/
def commandError (cmd : Bytes) (text : String) : Raised :=
  match index cmd 2 with
  | .ok code => .deviceError s!"command {hex04 code}{text}"
  | .error _ => .indexError

namespace DyUd200

variable (P : Primitives) {ω : Type} [Usb ω]

/-- The write and the read of `command`. -/
def exchange (frame : Bytes) (dev : ω) : Except UsbError Bytes × ω :=
  match Usb.write frame dev with
  | (.error e, dev) => (.error e, dev)
  | (.ok (), dev) => Usb.read dev

/-- What `command` makes of the bytes it has read. -/
def checkResponse (cmd : Bytes) (check : Bool) (raw : Bytes) : Except Raised Bytes :=
  if raw.length < responseSize then
    .error (commandError cmd s!": short response ({raw.length} bytes)")
  else
    match decode P raw with
    | .error e => .error (commandError cmd s!": {e.message}")
    | .ok res =>
      if check then
        match index res 0 with
        | .error _ => .error .indexError
        | .ok status =>
          if status ≠ 0 then .error (commandError cmd s!" returned status {hex04 status}")
          else .ok res
      else
        .ok res

/-- Send a command and return the decrypted 128-byte response. -/
def command (self : DyUd200 ω) (cmd : Bytes) (check : Bool := true) :
    Except Raised Bytes × DyUd200 ω :=
  match self.codec.encode P cmd with
  | (.error e, codec) => (.error (.valueError e.message), { self with codec })
  | (.ok frame, codec) =>
    match exchange frame self.dev with
    | (.error e, dev) =>
      (.error (commandError cmd s!" failed: {e.message}"), { self with codec, dev })
    | (.ok raw, dev) => (checkResponse P cmd check raw, { self with codec, dev })

/-- Reset the card reader; the T=1 sequence number starts from 0 again. -/
def bcasReset (self : DyUd200 ω) : Except Raised Unit × DyUd200 ω :=
  match self.command P cmdBcasDeactivate false with
  | (.error e, self) => (.error e, self)
  | (.ok _, self) =>
    match self.command P cmdBcasActivate false with
    | (.error e, self) => (.error e, self)
    | (.ok _, self) => (.ok (), { self with bcasPcb := 0x00 })

/-- The APDU in the response to an I-block, or why the attempt failed. -/
def bcasPayload (res : Bytes) : Except IndexError (Except String Bytes) := do
  let status ← index res 0
  let length ← index res 1
  if status ≠ 0 ∨ length < 6 then
    return .error s!"B-CAS command failed (status {hex04 status}, length {length})"
  let n ← index res 6
  if 7 + n.toNat > 124 then
    return .error s!"B-CAS response too long ({n} bytes)"
  return .ok (slice res 7 (7 + n.toNat))

/-- `self._bcas_pcb ^= 0x40` -/
def flipPcb (self : DyUd200 ω) : DyUd200 ω := { self with bcasPcb := self.bcasPcb ^^^ 0x40 }

/-- One turn of the loop of `bcas_transmit`. The inner error is the text of a failure that is tried
again. -/
def bcasAttempt (self : DyUd200 ω) (apdu : Bytes) :
    Except Raised (Except String Bytes) × DyUd200 ω :=
  let pcb := self.bcasPcb
  let self := self.flipPcb
  match t1Block apdu pcb with
  | .error e => (.error (.valueError e.message), self)
  | .ok block =>
    match self.command P block false with
    -- `except DeviceError`; a `ValueError` is not caught
    | (.error (.deviceError message), self) => (.ok (.error message), self)
    | (.error e, self) => (.error e, self)
    | (.ok res, self) =>
      match bcasPayload res with
      | .error _ => (.error .indexError, self)
      | .ok result => (.ok result, self)

/-- The turns that are left of the loop, with the text of `last`. -/
def bcasAttempts (apdu : Bytes) : ℕ → String → DyUd200 ω → Except Raised Bytes × DyUd200 ω
  | 0, last, self => (.error (.deviceError s!"B-CAS transmit failed: {last}"), self)
  | turns + 1, _, self =>
    match bcasAttempt P self apdu with
    | (.error e, self) => (.error e, self)
    | (.ok (.error last), self) => bcasAttempts apdu turns last self
    | (.ok (.ok response), self) => (.ok response, self)

/-- Send an APDU to the internal B-CAS card and return the response (with SW1 SW2). -/
def bcasTransmit (self : DyUd200 ω) (apdu : Bytes) (retries : ℕ := 2) :
    Except Raised Bytes × DyUd200 ω :=
  bcasAttempts P apdu (retries + 1) "None" self

/-! ## What the calls do to the channel -/

section Spec

variable {P} {self self' : DyUd200 ω} {cmd apdu frame raw res payload : Bytes} {check : Bool}
variable {codec : CommandCodec} {dev : ω}

theorem command_of_encode_error {e : ValueError} (h : self.codec.encode P cmd = (.error e, codec)) :
    self.command P cmd check = (.error (.valueError e.message), { self with codec }) := by
  rw [command, h]

theorem command_of_exchange_error {e : UsbError}
    (h : self.codec.encode P cmd = (.ok frame, codec))
    (hx : exchange frame self.dev = (.error e, dev)) :
    self.command P cmd check =
      (.error (commandError cmd s!" failed: {e.message}"), { self with codec, dev }) := by
  rw [command, h]
  simp only [hx]

theorem command_of_exchange_ok (h : self.codec.encode P cmd = (.ok frame, codec))
    (hx : exchange frame self.dev = (.ok raw, dev)) :
    self.command P cmd check = (checkResponse P cmd check raw, { self with codec, dev }) := by
  rw [command, h]
  simp only [hx]

/-- What a command returns is a response that was read for its frame. -/
theorem exchange_of_command_eq_ok (h : self.command P cmd check = (.ok res, self')) :
    ∃ frame raw, exchange frame self.dev = (.ok raw, self'.dev) ∧ decode P raw = .ok res := by
  rcases hencode : self.codec.encode P cmd with ⟨_ | frame, codec⟩
  · rw [command_of_encode_error hencode] at h
    cases h
  rcases hx : exchange frame self.dev with ⟨_ | raw, dev⟩
  · rw [command_of_exchange_error hencode hx] at h
    cases h
  rw [command_of_exchange_ok hencode hx] at h
  obtain ⟨hres, rfl⟩ := Prod.mk.inj h
  refine ⟨frame, raw, hx, ?_⟩
  rw [checkResponse] at hres
  -- the length, the CRC and the status are checked; none of the checks changes the response
  split at hres
  · cases hres
  split at hres
  · cases hres
  rename_i res' hdecode
  rw [hdecode]
  split at hres
  · split at hres
    · cases hres
    · split at hres
      · cases hres
      · exact congrArg _ (Except.ok.inj hres)
  · exact congrArg _ (Except.ok.inj hres)

theorem commandError_of_le (h : 3 ≤ cmd.length) (text : String) :
    ∃ message, commandError cmd text = .deviceError message := by
  rw [commandError, index_eq_ok (by omega)]
  exact ⟨_, rfl⟩

/-- A command that fits its frame, and has a code, raises nothing but `DeviceError`. -/
theorem command_raises (hshort : 3 ≤ cmd.length) (hlong : cmd.length ≤ commandSize) {e : Raised}
    (h : self.command P cmd check = (.error e, self')) : ∃ message, e = .deviceError message := by
  obtain ⟨frame, codec, hencode⟩ : ∃ frame codec, self.codec.encode P cmd = (.ok frame, codec) :=
    encode_of_le hlong
  rcases hx : exchange frame self.dev with ⟨_ | raw, dev⟩
  · rw [command_of_exchange_error hencode hx] at h
    obtain rfl := Except.error.inj (Prod.mk.inj h).1
    exact commandError_of_le hshort _
  rw [command_of_exchange_ok hencode hx] at h
  have hres := (Prod.mk.inj h).1
  rw [checkResponse] at hres
  split at hres
  · obtain rfl := Except.error.inj hres
    exact commandError_of_le hshort _
  split at hres
  · obtain rfl := Except.error.inj hres
    exact commandError_of_le hshort _
  rename_i res hdecode
  have hlen := length_of_decode_eq_ok hdecode
  split at hres
  · -- the status byte is there
    rw [index_eq_ok (by rw [hlen]; decide)] at hres
    dsimp only at hres
    split at hres
    · obtain rfl := Except.error.inj hres
      exact commandError_of_le hshort _
    · cases hres
  · cases hres

variable {I : ω → Prop}

/-- **A command** keeps what every exchange keeps. -/
theorem command_keeps (hI : ∀ frame dev, I dev → I (exchange frame dev).2) (h : I self.dev) :
    I (self.command P cmd check).2.dev := by
  rcases hencode : self.codec.encode P cmd with ⟨_ | frame, codec⟩
  · rw [command_of_encode_error hencode]
    exact h
  have hnext := hI frame self.dev h
  rcases hx : exchange frame self.dev with ⟨_ | raw, dev⟩
  · rw [command_of_exchange_error hencode hx]
    rwa [hx] at hnext
  · rw [command_of_exchange_ok hencode hx]
    rwa [hx] at hnext

theorem bcasReset_keeps (hI : ∀ frame dev, I dev → I (exchange frame dev).2) (h : I self.dev) :
    I (self.bcasReset P).2.dev := by
  have hdeactivate : I (self.command P cmdBcasDeactivate false).2.dev := command_keeps hI h
  rw [bcasReset]
  rcases hd : self.command P cmdBcasDeactivate false with ⟨_ | _, s⟩
  · rwa [hd] at hdeactivate
  rw [hd] at hdeactivate
  have hactivate : I (s.command P cmdBcasActivate false).2.dev := command_keeps hI hdeactivate
  simp only
  rcases ha : s.command P cmdBcasActivate false with ⟨_ | _, s'⟩ <;> rwa [ha] at hactivate

/-- The pcb is flipped before the block is built, and only a block that is built is sent. -/
theorem bcasAttempt_snd : (self.bcasAttempt P apdu).2 =
    match t1Block apdu self.bcasPcb with
    | .error _ => self.flipPcb
    | .ok block => (self.flipPcb.command P block false).2 := by
  rw [bcasAttempt]
  rcases t1Block apdu self.bcasPcb with e | block
  · rfl
  simp only
  rcases self.flipPcb.command P block false with ⟨(_ | _ | _) | res, s⟩
  · rfl
  · rfl
  · rfl
  · simp only
    cases bcasPayload res <;> rfl

theorem bcasAttempt_keeps (hI : ∀ frame dev, I dev → I (exchange frame dev).2) (h : I self.dev) :
    I (self.bcasAttempt P apdu).2.dev := by
  rw [bcasAttempt_snd]
  rcases t1Block apdu self.bcasPcb with e | block
  · exact h
  · exact command_keeps hI h

/-- **The loop** keeps what every attempt keeps, however many attempts it makes. -/
theorem bcasAttempts_keeps {J : DyUd200 ω → Prop}
    (hJ : ∀ s : DyUd200 ω, J s → J (s.bcasAttempt P apdu).2) (turns : ℕ) (last : String)
    (h : J self) : J (bcasAttempts P apdu turns last self).2 := by
  induction turns generalizing self last with
  | zero => exact h
  | succ turns ih =>
    have hnext := hJ self h
    rw [bcasAttempts]
    rcases hattempt : bcasAttempt P self apdu with ⟨_ | _ | _, s⟩ <;> rw [hattempt] at hnext
    · exact hnext
    · -- only this outcome is tried again
      exact ih _ hnext
    · exact hnext

theorem bcasTransmit_keeps (hI : ∀ frame dev, I dev → I (exchange frame dev).2) (retries : ℕ)
    (h : I self.dev) : I (self.bcasTransmit P apdu retries).2.dev :=
  bcasAttempts_keeps (J := fun s ↦ I s.dev) (fun _ hs ↦ bcasAttempt_keeps hI hs) _ _ h

theorem command_of_bcasAttempt_eq_ok (h : self.bcasAttempt P apdu = (.ok (.ok payload), self')) :
    ∃ block res, self.flipPcb.command P block false = (.ok res, self') ∧
      bcasPayload res = .ok (.ok payload) := by
  rw [bcasAttempt] at h
  rcases hblock : t1Block apdu self.bcasPcb with e | block
  · rw [hblock] at h
    cases h
  rw [hblock] at h
  simp only at h
  rcases hcommand : self.flipPcb.command P block false with ⟨e | res, s⟩
  · rw [hcommand] at h
    cases e <;> cases h
  rw [hcommand] at h
  simp only at h
  rcases hpayload : bcasPayload res with e | result
  · rw [hpayload] at h
    cases h
  rw [hpayload] at h
  obtain ⟨hresult, rfl⟩ := Prod.mk.inj h
  obtain rfl := Except.ok.inj hresult
  exact ⟨block, res, hcommand, hpayload⟩

/-- The response to a command is long enough for what `bcas_transmit` reads of it. -/
theorem bcasPayload_eq_ok (h : res.length = responseSize) :
    ∃ result, bcasPayload res = .ok result := by
  rw [responseSize] at h
  rw [bcasPayload, index_eq_ok (by omega), index_eq_ok (by omega), index_eq_ok (by omega)]
  simp only [bind, Except.bind, pure, Except.pure]
  split
  · exact ⟨_, rfl⟩
  · split <;> exact ⟨_, rfl⟩

theorem bcasAttempt_raises (h : apdu.length ≤ 115) {e : Raised} :
    self.bcasAttempt P apdu ≠ (.error e, self') := by
  have hlen : (vendorCommand apdu self.bcasPcb).length = apdu.length + 13 :=
    length_vendorCommand apdu self.bcasPcb
  intro hattempt
  rw [bcasAttempt, t1Block_eq_ok h] at hattempt
  simp only at hattempt
  rcases hcommand : self.flipPcb.command P (vendorCommand apdu self.bcasPcb) false
    with ⟨e' | res, s⟩
  · obtain ⟨message, rfl⟩ := command_raises (by omega) (by rw [commandSize]; omega) hcommand
    rw [hcommand] at hattempt
    simp at hattempt
  · obtain ⟨frame, raw, -, hdecode⟩ := exchange_of_command_eq_ok hcommand
    obtain ⟨result, hresult⟩ := bcasPayload_eq_ok (length_of_decode_eq_ok hdecode)
    rw [hcommand] at hattempt
    simp [hresult] at hattempt

/-- An APDU that fits raises nothing but `DeviceError`. -/
theorem bcasTransmit_raises (hlen : apdu.length ≤ 115) {retries : ℕ} {e : Raised}
    (h : self.bcasTransmit P apdu retries = (.error e, self')) :
    ∃ message, e = .deviceError message := by
  rw [bcasTransmit] at h
  generalize retries + 1 = turns at h
  generalize "None" = last at h
  induction turns generalizing self last with
  | zero =>
    obtain rfl := Except.error.inj (Prod.mk.inj h).1
    exact ⟨_, rfl⟩
  | succ turns ih =>
    rw [bcasAttempts] at h
    rcases hattempt : bcasAttempt P self apdu with ⟨e' | last' | response, s⟩
    · exact absurd hattempt (bcasAttempt_raises hlen)
    · rw [hattempt] at h
      exact ih _ h
    · rw [hattempt] at h
      cases h

/-- What a transmission returns is in the response of its last attempt, made from a state in which
everything holds that the exchanges keep. -/
theorem command_of_bcasTransmit_eq_ok (hI : ∀ frame dev, I dev → I (exchange frame dev).2)
    {retries : ℕ} (hself : I self.dev)
    (h : self.bcasTransmit P apdu retries = (.ok payload, self')) :
    ∃ (s : DyUd200 ω) (block res : Bytes), I s.dev ∧ s.command P block false = (.ok res, self') ∧
      bcasPayload res = .ok (.ok payload) := by
  rw [bcasTransmit] at h
  generalize retries + 1 = turns at h
  generalize "None" = last at h
  induction turns generalizing self last with
  | zero => cases h
  | succ turns ih =>
    have hnext : I (bcasAttempt P self apdu).2.dev := bcasAttempt_keeps hI hself
    rw [bcasAttempts] at h
    rcases hattempt : bcasAttempt P self apdu with ⟨e | last' | response, s⟩
    · rw [hattempt] at h
      cases h
    · -- the attempt failed, and the next one starts from the state it left
      rw [hattempt] at h hnext
      exact ih hnext _ h
    · rw [hattempt] at h
      obtain ⟨hresponse, rfl⟩ := Prod.mk.inj h
      obtain rfl := Except.ok.inj hresponse
      obtain ⟨block, res, hcommand, hpayload⟩ := command_of_bcasAttempt_eq_ok hattempt
      exact ⟨self.flipPcb, block, res, hself, hcommand, hpayload⟩

end Spec

end DyUd200

/-! ## Runs of calls -/

/-- A call on the tuner. -/
inductive Call where
  | command (cmd : Bytes) (check : Bool)
  | bcasReset
  | bcasTransmit (apdu : Bytes) (retries : ℕ)
  deriving DecidableEq, Repr

section Runs

variable {P : Primitives} {ω : Type} [Usb ω]

/-- The tuner after a call, whether or not it raised. -/
def Call.perform (P : Primitives) (self : DyUd200 ω) : Call → DyUd200 ω
  | .command cmd check => (self.command P cmd check).2
  | .bcasReset => (self.bcasReset P).2
  | .bcasTransmit apdu retries => (self.bcasTransmit P apdu retries).2

/-- The runs of calls on a new tuner. -/
def tunerMachine (P : Primitives) (dev : ω) : Machine (DyUd200 ω) Call where
  init := { dev }
  step self call := some (call.perform P self)

/-- **Runs** keep what every exchange keeps. -/
theorem tunerMachine_keeps {I : ω → Prop}
    (hI : ∀ frame dev, I dev → I (DyUd200.exchange frame dev).2) {dev : ω} (h : I dev)
    {calls : List Call} {s : DyUd200 ω} (hrun : (tunerMachine P dev).Run calls s) : I s.dev := by
  refine Machine.Run.induction (I := fun _ s ↦ I s.dev) h (fun calls s call s' _ hs hstep ↦ ?_) hrun
  obtain rfl := Option.some.inj hstep
  cases call with
  | command cmd check => exact DyUd200.command_keeps hI hs
  | bcasReset => exact DyUd200.bcasReset_keeps hI hs
  | bcasTransmit apdu retries => exact DyUd200.bcasTransmit_keeps hI retries hs

end Runs

end Recdyud
