import Recdyud.Device.Lifecycle
import Recdyud.Protocol.Session

/-!
# The session key, when transfers fail

`encode` goes over to the key of an initialisation command before the frame is written, and nothing
takes it back when the write fails. `Line` is the device of `Recdyud.Protocol.Session` behind a line
on which any write may fail, any read may give anything, and every frame is noted with the session
key the device held and whether it arrived.

A failed call leaves no trace in the encryption of later commands exactly when its command sets no
key, or one that makes no difference (`encodeAll_after_failure_iff`). And while no write fails that
carries a new key, host and device use the same key, through every call of `initialize` and `close`
(`keysAgree_of_harmless`). After a failed first initialisation command they do not: the stop command
that `close` sends then is encrypted with a key the device has never seen.
-/

namespace Recdyud

open CommandCodec

/-! ## The line -/

/-- A frame on the line. -/
structure Transmission where
  frame : Bytes
  /-- the session key of the device at that moment -/
  key : CommandKey
  arrived : Bool
  deriving DecidableEq

/-- A device behind a line on which transfers fail. -/
structure Line where
  device : ReferenceDevice := {}
  /-- which writes fail, by their number; the frame does not arrive then -/
  writeFailures : ℕ → Option UsbError := fun _ ↦ none
  /-- what the reads give, by their number -/
  reads : ℕ → Except UsbError Bytes := fun _ ↦ .error ⟨"Operation timed out"⟩
  haltFailures : ℕ → Option HaltError := fun _ ↦ none
  writeCount : ℕ := 0
  readCount : ℕ := 0
  haltCount : ℕ := 0
  log : List Transmission := []

/-- A line, and the primitives of its device. -/
structure KeyedLine (P : Primitives) extends Line

namespace KeyedLine

variable {P : Primitives}

/-- The frame arrives, or the write fails. -/
def write (frame : Bytes) (self : KeyedLine P) : Except UsbError Unit × KeyedLine P :=
  let sent (arrived : Bool) : List Transmission :=
    self.log ++ [{ frame, key := self.device.sessionKey, arrived }]
  match self.writeFailures self.writeCount with
  | some e => (.error e, { self with writeCount := self.writeCount + 1, log := sent false })
  | none =>
    (.ok (), { self with
      device := (self.device.receive P frame).2
      writeCount := self.writeCount + 1
      log := sent true })

def read (self : KeyedLine P) : Except UsbError Bytes × KeyedLine P :=
  (self.reads self.readCount, { self with readCount := self.readCount + 1 })

def clearHalt (self : KeyedLine P) : Except HaltError Unit × KeyedLine P :=
  ((self.haltFailures self.haltCount).elim (.ok ()) .error,
    { self with haltCount := self.haltCount + 1 })

instance : UsbDevice (KeyedLine P) where
  write := write
  read := read
  clearHalt _ := clearHalt
  drainRead _ _ := read
  releaseInterface self := (.ok (), self)
  disposeResources self := self

end KeyedLine

/-! ## Keys that make no difference -/

section Keys

variable (P : Primitives)

/-- Two keys give the same cipher. -/
def SameCipher (k k' : CommandKey) : Prop := P.aes k.toList = P.aes k'.toList

/-- The results of encoding a list of commands. -/
def encodeAll (codec : CommandCodec) : List Bytes → List (Except ValueError Bytes)
  | [] => []
  | cmd :: cmds => (codec.encode P cmd).1 :: encodeAll (codec.encode P cmd).2 cmds

/-- The command sets no key, or one that makes no difference to the codec. -/
def KeepsCipher (codec : CommandCodec) (cmd : Bytes) : Prop :=
  Ordinary (plainFrame P cmd) ∨
    P.aes (slice (plainFrame P cmd) 16 32) = P.aes codec.commandKey.toList

variable {P} {codec codec' : CommandCodec} {cmd frame : Bytes}

/-- What `encode` does to the cipher of the codec. -/
theorem sameCipher_encode_iff (h : cmd.length ≤ commandSize) :
    SameCipher P (codec.encode P cmd).2.commandKey codec.commandKey ↔ KeepsCipher P codec cmd := by
  rw [KeepsCipher]
  by_cases hord : Ordinary (plainFrame P cmd)
  · simp only [encode_of_ordinary h hord, hord, true_or, iff_true]
    rfl
  · simp only [encode_of_not_ordinary h hord, hord, false_or]
    rfl

/-- With the same cipher, commands are encoded the same way, and the ciphers stay the same. -/
theorem encode_of_sameCipher (h : SameCipher P codec.commandKey codec'.commandKey) (cmd : Bytes) :
    (codec.encode P cmd).1 = (codec'.encode P cmd).1
    ∧ SameCipher P (codec.encode P cmd).2.commandKey (codec'.encode P cmd).2.commandKey := by
  rcases Nat.lt_or_ge commandSize cmd.length with hlong | hle
  · rw [encode_of_long hlong, encode_of_long hlong]
    exact ⟨rfl, h⟩
  · by_cases hord : Ordinary (plainFrame P cmd)
    · rw [encode_of_ordinary hle hord, encode_of_ordinary hle hord, h]
      exact ⟨rfl, h⟩
    · rw [encode_of_not_ordinary hle hord, encode_of_not_ordinary hle hord]
      exact ⟨rfl, rfl⟩

theorem encodeAll_of_sameCipher (h : SameCipher P codec.commandKey codec'.commandKey)
    (cmds : List Bytes) : encodeAll P codec cmds = encodeAll P codec' cmds := by
  induction cmds generalizing codec codec' with
  | nil => rfl
  | cons cmd cmds ih =>
    obtain ⟨hfirst, hnext⟩ := encode_of_sameCipher h cmd
    rw [encodeAll, encodeAll, hfirst, ih hnext]

end Keys

section Probe

variable (P : Primitives) (codec codec' : CommandCodec)

/-- A command of full size that carries a block where encryption begins. -/
def probe (block : List.Vector UInt8 16) : Bytes :=
  [0x1F, 0xF0] ++ block.toList ++ List.replicate 110 0

theorem length_probe (block : List.Vector UInt8 16) : (probe block).length = commandSize := by
  simp [probe, commandSize]

/-- What stands in the place of the block is the block under the cipher. -/
theorem encode_probe (block : List.Vector UInt8 16) : ∃ frame,
    (codec.encode P (probe block)).1 = .ok frame
    ∧ (slice frame 2 130).take 16 = (P.aes codec.commandKey.toList block).toList := by
  have hle : (probe block).length ≤ commandSize := (length_probe block).le
  have hlen := length_plainFrame P hle
  have hord : Ordinary (plainFrame P (probe block)) := by
    rw [Ordinary]
    exact (by decide : (0x1F : UInt8) &&& 0x10 ≠ 0)
  refine ⟨window (P.aes codec.commandKey.toList) (plainFrame P (probe block)),
    congrArg Prod.fst (encode_of_ordinary hle hord), ?_⟩
  have hslice : (slice (plainFrame P (probe block)) 2 130).length = 128 := by
    rw [length_slice, hlen]
    rfl
  have hdrop : (plainFrame P (probe block)).drop 2 = block.toList ++ List.replicate 110 0
      ++ List.replicate (commandSize - (probe block).length) 0
      ++ crcBytes P (padded (probe block)) := rfl
  have hblock : (slice (plainFrame P (probe block)) 2 130).take 16 = block.toList := by
    rw [slice_add _ 2 128, List.take_take, hdrop, List.append_assoc, List.append_assoc]
    exact List.take_left' (List.Vector.toList_length _)
  rw [slice_window hlen, ecb_of_le _ (by norm_num) (by rw [hslice]; norm_num),
    List.take_left' (List.Vector.toList_length _)]
  congr 2
  exact List.Vector.eq _ _ hblock

variable {P codec codec'}

theorem sameCipher_of_encodeAll
    (h : ∀ cmds, encodeAll P codec cmds = encodeAll P codec' cmds) :
    SameCipher P codec.commandKey codec'.commandKey := by
  refine Equiv.ext fun block ↦ ?_
  obtain ⟨frame, hframe, hblock⟩ := encode_probe P codec block
  obtain ⟨frame', hframe', hblock'⟩ := encode_probe P codec' block
  have hsame := (List.cons.inj (h [probe block])).1
  rw [hframe, hframe'] at hsame
  obtain rfl := Except.ok.inj hsame
  exact List.Vector.eq _ _ (hblock.symm.trans hblock')

end Probe

/-! ## One failure -/

section Failure

variable {P : Primitives} {self : DyUd200 (KeyedLine P)} {cmd : Bytes} {check : Bool} {e : UsbError}

theorem encode_eq_ok (codec : CommandCodec) (h : cmd.length ≤ commandSize) : ∃ frame,
    codec.encode P cmd = (.ok frame, (codec.encode P cmd).2) := by
  by_cases hord : Ordinary (plainFrame P cmd)
  · rw [encode_of_ordinary h hord]
    exact ⟨_, rfl⟩
  · rw [encode_of_not_ordinary h hord]
    exact ⟨_, rfl⟩

/-- A failed write raises, and the device has not seen the frame; the codec is in the state behind
it. -/
theorem command_of_writeFailure (h : cmd.length ≤ commandSize)
    (hfails : self.dev.writeFailures self.dev.writeCount = some e) :
    (self.command P cmd check).1 = .error (commandError cmd s!" failed: {e.message}")
    ∧ (self.command P cmd check).2.dev.device = self.dev.device
    ∧ (self.command P cmd check).2.codec = (self.codec.encode P cmd).2 := by
  obtain ⟨frame, hencode⟩ := encode_eq_ok (P := P) self.codec h
  have hx : (DyUd200.exchange frame self.dev).1 = .error e
      ∧ (DyUd200.exchange frame self.dev).2.device = self.dev.device := by
    have hwrite : Usb.write frame self.dev = self.dev.write frame := rfl
    rw [DyUd200.exchange, hwrite, KeyedLine.write, hfails]
    exact ⟨rfl, rfl⟩
  rcases hexchange : DyUd200.exchange frame self.dev with ⟨result, dev⟩
  rw [hexchange] at hx
  obtain ⟨rfl, hdevice⟩ := hx
  rw [DyUd200.command_of_exchange_error hencode hexchange]
  exact ⟨rfl, hdevice, rfl⟩

/-- **A failed call** leaves no trace in later commands exactly when its command keeps the
cipher. -/
theorem encodeAll_after_failure_iff (h : cmd.length ≤ commandSize)
    (hfails : self.dev.writeFailures self.dev.writeCount = some e) :
    (∀ later, encodeAll P (self.command P cmd check).2.codec later
      = encodeAll P self.codec later) ↔ KeepsCipher P self.codec cmd := by
  rw [(command_of_writeFailure h hfails).2.2, ← sameCipher_encode_iff h]
  constructor
  · exact sameCipher_of_encodeAll
  · exact encodeAll_of_sameCipher

end Failure

/-! ## Runs -/

section Runs

variable (P : Primitives)

/-- An ordinary frame is a command under the session key of the device. -/
def Understood (t : Transmission) : Prop :=
  Ordinary t.frame → ∃ cmd, cmd.length ≤ commandSize
    ∧ t.frame = window (P.aes t.key.toList) (plainFrame P cmd)

variable {P} in
/-- The device can read such a frame. -/
theorem receive_of_understood {t : Transmission} (h : Understood P t) (hord : Ordinary t.frame) :
    ∃ cmd, (({ sessionKey := t.key } : ReferenceDevice).receive P t.frame).1 = some cmd := by
  obtain ⟨cmd, hcmd, hframe⟩ := h hord
  have hlen := length_plainFrame P hcmd
  have hplain : Ordinary (plainFrame P cmd) := by
    rwa [hframe, ordinary_window hlen] at hord
  have hreceive := ReferenceDevice.receive_window P { sessionKey := t.key } hlen
    (List.take_left' (length_padded hcmd)) (List.drop_left' (length_padded hcmd))
  rw [ReferenceDevice.keyFor_eq, if_pos hplain, ← hframe] at hreceive
  exact ⟨_, congrArg Prod.fst hreceive⟩

/-- The key in the frame of an initialisation command. -/
def keyIn (frame : Bytes) : Bytes := slice (window (P.aes defaultKey).symm frame) 16 32

/-- The frame arrived, or it sets no key, or one that makes no difference to the device. -/
def Harmless (t : Transmission) : Prop :=
  t.arrived = true ∨ Ordinary t.frame ∨ P.aes (keyIn P t.frame) = P.aes t.key.toList

/-- Host and device use the same session key, and have done so for every ordinary frame. -/
structure KeysAgree (codec : CommandCodec) (dev : KeyedLine P) : Prop where
  cipher : SameCipher P codec.commandKey dev.device.sessionKey
  understood : ∀ t ∈ dev.log, Understood P t

variable {P} {codec codec' : CommandCodec} {cmd frame : Bytes} {dev : KeyedLine P}

/-- The two kinds of frame. -/
theorem encode_cases (hencode : codec.encode P cmd = (.ok frame, codec')) :
    cmd.length ≤ commandSize ∧
      (Ordinary frame ∧ frame = window (P.aes codec.commandKey.toList) (plainFrame P cmd)
          ∧ codec' = codec
        ∨ ¬ Ordinary frame ∧ frame = window (P.aes defaultKey) (plainFrame P cmd)
          ∧ codec'.commandKey.toList = slice (plainFrame P cmd) 16 32) := by
  rcases Nat.lt_or_ge commandSize cmd.length with hlong | h
  · rw [encode_of_long hlong] at hencode
    cases hencode
  refine ⟨h, ?_⟩
  by_cases hord : Ordinary (plainFrame P cmd)
  · rw [encode_of_ordinary h hord] at hencode
    obtain ⟨hframe, rfl⟩ := Prod.mk.inj hencode
    obtain rfl := Except.ok.inj hframe
    exact .inl ⟨(ordinary_window (length_plainFrame P h)).mpr hord, rfl, rfl⟩
  · rw [encode_of_not_ordinary h hord] at hencode
    obtain ⟨hframe, rfl⟩ := Prod.mk.inj hencode
    obtain rfl := Except.ok.inj hframe
    exact .inr ⟨mt (ordinary_window (length_plainFrame P h)).mp hord, rfl, rfl⟩

/-- A frame from a host whose key is the device's. -/
theorem understood_encode (hencode : codec.encode P cmd = (.ok frame, codec'))
    (hcipher : SameCipher P codec.commandKey dev.device.sessionKey) (arrived : Bool) :
    Understood P { frame, key := dev.device.sessionKey, arrived } := by
  intro hord
  obtain ⟨h, ⟨-, hframe, -⟩ | ⟨hinit, -, -⟩⟩ := encode_cases hencode
  · refine ⟨cmd, h, ?_⟩
    rw [hcipher] at hframe
    exact hframe
  · exact absurd hord hinit

/-- What the device does with such a frame. -/
theorem sameCipher_receive (hencode : codec.encode P cmd = (.ok frame, codec'))
    (device : ReferenceDevice) (hcipher : SameCipher P codec.commandKey device.sessionKey) :
    SameCipher P codec'.commandKey (device.receive P frame).2.sessionKey := by
  obtain ⟨h, hkind⟩ := encode_cases hencode
  have hlen := length_plainFrame P h
  have hreceive := device.receive_window P hlen (List.take_left' (length_padded h))
    (List.drop_left' (length_padded h))
  obtain ⟨hord, hframe, rfl⟩ | ⟨hord, hframe, hkey⟩ := hkind
  · have hplain : Ordinary (plainFrame P cmd) := by
      rwa [hframe, ordinary_window hlen] at hord
    rw [ReferenceDevice.keyFor_eq, if_pos hplain, if_pos hplain, ← hcipher, ← hframe] at hreceive
    rw [hreceive]
    exact hcipher
  · have hplain : ¬ Ordinary (plainFrame P cmd) := by
      rwa [hframe, ordinary_window hlen] at hord
    rw [ReferenceDevice.keyFor_eq, if_neg hplain, if_neg hplain, ← hframe] at hreceive
    rw [hreceive, SameCipher, hkey]
    rfl

/-- While the keys are the same, the loss of a frame is harmless when its command keeps the
cipher. -/
theorem harmless_lost_iff (hencode : codec.encode P cmd = (.ok frame, codec'))
    (hcipher : SameCipher P codec.commandKey dev.device.sessionKey) :
    Harmless P { frame, key := dev.device.sessionKey, arrived := false }
      ↔ KeepsCipher P codec cmd := by
  obtain ⟨h, hkind⟩ := encode_cases hencode
  have hlen := length_plainFrame P h
  have hplain : Ordinary frame ↔ Ordinary (plainFrame P cmd) := by
    obtain ⟨-, hframe, -⟩ | ⟨-, hframe, -⟩ := hkind <;> rw [hframe, ordinary_window hlen]
  rw [Harmless, KeepsCipher, hcipher, hplain]
  obtain ⟨hord, -, -⟩ | ⟨hord, hframe, -⟩ := hkind
  · simp only [hplain.mp hord, true_or, or_true]
  · rw [keyIn, hframe, window_symm_window hlen]
    simp only [Bool.false_eq_true, false_or]

/-- A frame that got lost. -/
theorem sameCipher_lost (hencode : codec.encode P cmd = (.ok frame, codec'))
    (hcipher : SameCipher P codec.commandKey dev.device.sessionKey)
    (hharmless : Harmless P { frame, key := dev.device.sessionKey, arrived := false }) :
    SameCipher P codec'.commandKey dev.device.sessionKey := by
  have hkeeps := (harmless_lost_iff hencode hcipher).mp hharmless
  have hnext := (sameCipher_encode_iff (encode_cases hencode).1).mpr hkeeps
  rw [hencode] at hnext
  exact hnext.trans hcipher

theorem exchange_write (frame : Bytes) (dev : KeyedLine P) :
    (DyUd200.exchange frame dev).2.log = (dev.write frame).2.log
    ∧ (DyUd200.exchange frame dev).2.device = (dev.write frame).2.device := by
  have hwrite : Usb.write frame dev = dev.write frame := rfl
  rw [DyUd200.exchange, hwrite]
  rcases dev.write frame with ⟨_ | _, dev⟩ <;> exact ⟨rfl, rfl⟩

/-- **An exchange** keeps the keys the same, unless the frame gets lost and sets another key. -/
theorem keysAgree_exchange (hencode : codec.encode P cmd = (.ok frame, codec'))
    (hagree : KeysAgree P codec dev)
    (hharmless : ∀ t ∈ (DyUd200.exchange frame dev).2.log, Harmless P t) :
    KeysAgree P codec' (DyUd200.exchange frame dev).2 := by
  obtain ⟨hlog, hdevice⟩ := exchange_write frame dev
  rw [hlog] at hharmless
  have hnew (arrived : Bool)
      (hwritten : (dev.write frame).2.log
        = dev.log ++ [{ frame, key := dev.device.sessionKey, arrived }]) :
      ∀ t ∈ (DyUd200.exchange frame dev).2.log, Understood P t := by
    intro t ht
    rw [hlog, hwritten, List.mem_append, List.mem_singleton] at ht
    obtain ht | rfl := ht
    · exact hagree.understood t ht
    · exact understood_encode hencode hagree.cipher arrived
  rcases hfails : dev.writeFailures dev.writeCount with _ | e
  · have hwritten : (dev.write frame).2.log
        = dev.log ++ [{ frame, key := dev.device.sessionKey, arrived := true }]
        ∧ (dev.write frame).2.device = (dev.device.receive P frame).2 := by
      rw [KeyedLine.write, hfails]
      exact ⟨rfl, rfl⟩
    refine ⟨?_, hnew true hwritten.1⟩
    rw [hdevice, hwritten.2]
    exact sameCipher_receive hencode dev.device hagree.cipher
  · have hwritten : (dev.write frame).2.log
        = dev.log ++ [{ frame, key := dev.device.sessionKey, arrived := false }]
        ∧ (dev.write frame).2.device = dev.device := by
      rw [KeyedLine.write, hfails]
      exact ⟨rfl, rfl⟩
    refine ⟨?_, hnew false hwritten.1⟩
    rw [hdevice, hwritten.2]
    refine sameCipher_lost hencode hagree.cipher (hharmless _ ?_)
    rw [hwritten.1]
    exact List.mem_append_right _ (List.mem_singleton.mpr rfl)

/-- The log only grows. -/
theorem harmless_of_exchange (hharmless : ∀ t ∈ (DyUd200.exchange frame dev).2.log, Harmless P t) :
    ∀ t ∈ dev.log, Harmless P t := by
  intro t ht
  refine hharmless t ?_
  rw [(exchange_write frame dev).1, KeyedLine.write]
  cases dev.writeFailures dev.writeCount <;> exact List.mem_append_left _ ht

variable (P)

/-- As long as nothing harmful is in the log. -/
theorem channelInvariant_keysAgree : ChannelInvariant P fun codec (dev : KeyedLine P) ↦
    (∀ t ∈ dev.log, Harmless P t) → KeysAgree P codec dev where
  exchange hencode hJ hharmless :=
    keysAgree_exchange hencode (hJ (harmless_of_exchange hharmless)) hharmless
  clearHalt _ hJ hharmless := ⟨(hJ hharmless).cipher, (hJ hharmless).understood⟩
  drainRead _ _ hJ hharmless := ⟨(hJ hharmless).cipher, (hJ hharmless).understood⟩
  releaseInterface hJ := hJ
  disposeResources hJ := hJ

/-- Both initialisation commands set the same key: when the second one is lost, nothing changes. -/
theorem key_cmdInitNew :
    slice (plainFrame P cmdInitNew) 16 32 = slice (plainFrame P cmdInit) 16 32 := rfl

/-- **Lost frames** and the session key. A command whose write fails raises and has not reached the
device; later commands are encrypted as if it had not been made exactly when it keeps the cipher.
And in every run whose lost frames are harmless, host and device use the same session key. -/
theorem keysAgree_of_harmless :
    (∀ (self : DyUd200 (KeyedLine P)) (cmd : Bytes) (check : Bool) (e : UsbError),
      cmd.length ≤ commandSize → self.dev.writeFailures self.dev.writeCount = some e →
        (self.command P cmd check).1 = .error (commandError cmd s!" failed: {e.message}")
        ∧ (self.command P cmd check).2.dev.device = self.dev.device
        ∧ ((∀ later, encodeAll P (self.command P cmd check).2.codec later
          = encodeAll P self.codec later) ↔ KeepsCipher P self.codec cmd))
    ∧ ∀ (writeFailures : ℕ → Option UsbError) (reads : ℕ → Except UsbError Bytes)
        (haltFailures : ℕ → Option HaltError) (calls : List TunerCall)
        (s : Tuner (KeyedLine P)),
      (lifecycleMachine P ⟨{ writeFailures, reads, haltFailures }⟩).Run calls s →
        (∀ t ∈ s.channel.dev.log, Harmless P t) → KeysAgree P s.channel.codec s.channel.dev := by
  constructor
  · intro self cmd check e h hfails
    obtain ⟨hraises, hdevice, -⟩ := command_of_writeFailure h hfails
    exact ⟨hraises, hdevice, encodeAll_after_failure_iff h hfails⟩
  · intro writeFailures reads haltFailures calls s hrun
    refine lifecycleMachine_keeps (channelInvariant_keysAgree P) ?_ hrun
    intro _
    exact ⟨rfl, fun t ht ↦ absurd ht List.not_mem_nil⟩

end Runs

/-! ## The first command is lost -/

section InitFailure

/-- A cipher that adds the first byte of the key to every byte; every checksum is 0. -/
def Primitives.adding : Primitives where
  aes key := Function.Involutive.toPerm (List.Vector.map (· ^^^ key.headD 0)) fun block ↦ by
    refine List.Vector.eq _ _ ?_
    simp
  crc32 _ := 0

/-- A line on which only the write with this number fails, and which never responds. -/
def failingAt (P : Primitives) (n : ℕ) : KeyedLine P :=
  ⟨{ writeFailures := fun i ↦ if i = n then some ⟨"Operation timed out"⟩ else none }⟩

/-- `open_device` on such a line. -/
def openFailingAt (P : Primitives) (n : ℕ) : Tuner (KeyedLine P) :=
  TunerCall.openDevice.perform P { channel := { dev := failingAt P n } }

theorem run_openFailingAt (P : Primitives) (n : ℕ) :
    (lifecycleMachine P (failingAt P n)).Run [.openDevice] (openFailingAt P n) :=
  rfl

/-- **The first command is lost.** It leaves the key of its frame in the codec, which encodes the
stop command otherwise than before; and that is the frame which `close` sends to the device after
it, and which the device cannot read. -/
theorem not_keysAgree_lostInit :
    ((({ dev := failingAt .adding 0 } : DyUd200 _).command .adding cmdInit false).1
        = .error (.deviceError "command 0xe0 failed: Operation timed out")
      ∧ encodeAll .adding
          (({ dev := failingAt .adding 0 } : DyUd200 _).command .adding cmdInit false).2.codec
          [cmdStopTs] ≠ encodeAll .adding {} [cmdStopTs])
    ∧ (lifecycleMachine .adding (failingAt .adding 0)).Run [.openDevice] (openFailingAt .adding 0)
    ∧ ∃ t ∈ (openFailingAt .adding 0).channel.dev.log,
        t.arrived = true ∧ t.frame.head? = some 0x1F ∧ ¬ Understood .adding t := by
  refine ⟨?_, run_openFailingAt .adding 0, ?_⟩
  · decide +kernel
  · have hlog : ∃ t ∈ (openFailingAt .adding 0).channel.dev.log, t.arrived = true
        ∧ t.frame.head? = some 0x1F ∧ Ordinary t.frame
        ∧ (({ sessionKey := t.key } : ReferenceDevice).receive .adding t.frame).1 = none := by
      decide +kernel
    obtain ⟨t, ht, harrived, hhead, hord, hreceive⟩ := hlog
    refine ⟨t, ht, harrived, hhead, fun hunderstood ↦ ?_⟩
    obtain ⟨cmd, hcmd⟩ := receive_of_understood hunderstood hord
    rw [hreceive] at hcmd
    cases hcmd

/-- A stop command that is lost changes nothing, on its own and in `open_device`. -/
theorem keysAgree_lostStop :
    ((∀ later, encodeAll .adding
        (({ dev := failingAt .adding 0 } : DyUd200 _).command .adding cmdStopTs false).2.codec later
        = encodeAll .adding {} later) ↔ KeepsCipher .adding {} cmdStopTs)
    ∧ KeysAgree .adding (openFailingAt .adding 1).channel.codec
        (openFailingAt .adding 1).channel.dev := by
  have hlog : ∀ t ∈ (openFailingAt .adding 1).channel.dev.log,
      t.arrived = true ∨ Ordinary t.frame := by
    decide +kernel
  constructor
  · exact ((keysAgree_of_harmless .adding).1 { dev := failingAt .adding 0 } cmdStopTs false
      ⟨"Operation timed out"⟩ (by decide) rfl).2.2
  · refine (keysAgree_of_harmless .adding).2 _ _ _ [.openDevice] _ (run_openFailingAt .adding 1)
      fun t ht ↦ ?_
    obtain harrived | hord := hlog t ht
    · exact .inl harrived
    · exact .inr (.inl hord)

end InitFailure

end Recdyud
