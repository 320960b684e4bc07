import Recdyud.Protocol.Codec

/-!
# The other side of the channel

What a device has to do to understand `CommandCodec`, from the description of the frames alone: it
reads byte 0 in clear, decrypts bytes 2 to 129 with the fixed key or with its session key, checks
the CRC of the first 128 bytes, and takes bytes 16 to 31 of a command that sets a key. Its response
is a body of 124 bytes and their CRC under the fixed key. Nothing of the codec is used to say so;
that the device reads what the codec writes is `receive_window`.

## Host and device stay in step

`Session` puts the two behind one another. In step means that the session key is the key the codec
would use for an ordinary command. Every call of `encode` keeps them in step and hands the command
to the device with zeros up to 128 bytes, whatever commands came before; a command that is too long
changes neither side.
-/

namespace Recdyud

open CommandCodec

/-- `DEFAULT_KEY[:16]` -/
def firstSessionKey : CommandKey := ⟨defaultKey.take 16, rfl⟩

/-- The device, as the frames see it. -/
structure ReferenceDevice where
  sessionKey : CommandKey := firstSessionKey
  deriving DecidableEq

namespace ReferenceDevice

variable (P : Primitives)

/-- The key a frame was encrypted with, by bit 4 of byte 0, which is not encrypted. -/
def keyFor (self : ReferenceDevice) (frame : Bytes) : Bytes :=
  if (frame.headD 0).toNat.testBit 4 then self.sessionKey.toList else defaultKey

/-- Bytes 2 to 129 are decrypted. -/
def decrypt (key frame : Bytes) : Bytes :=
  frame.take 2 ++ ecb (P.aes key).symm ((frame.drop 2).take 128) ++ frame.drop 130

theorem length_decrypt {frame : Bytes} (h : frame.length = 132) (key : Bytes) :
    (decrypt P key frame).length = 132 := by
  have hbody : ((frame.drop 2).take 128).length = 128 := by
    rw [List.length_take, List.length_drop, h]
    rfl
  rw [decrypt, List.length_append, List.length_append, length_ecb (by norm_num) _ (by simp [hbody]),
    hbody, List.length_take, List.length_drop, h]
  rfl

/-- Bytes 16 to 31 are the key that a command sets. -/
def newKey (plain : Bytes) (h : plain.length = 132) : CommandKey :=
  ⟨(plain.drop 16).take 16, by rw [List.length_take, List.length_drop, h]; rfl⟩

/-- The command in a frame, if the CRC matches; a frame of another size is ignored. -/
def receive (self : ReferenceDevice) (frame : Bytes) : Option Bytes × ReferenceDevice :=
  if h : frame.length = 132 then
    let plain := decrypt P (self.keyFor frame) frame
    if intFromBytes (plain.drop 128) ≠ (P.crc32 (plain.take 128)).toNat then
      (none, self)
    else if (frame.headD 0).toNat.testBit 4 then
      (some (plain.take 128), self)
    else
      (some (plain.take 128), { sessionKey := newKey plain (length_decrypt P h _) })
  else
    (none, self)

/-- The body of a response, and its CRC in big-endian order. -/
def responsePlain (body : Bytes) : Bytes := body ++ toBytes (P.crc32 body).toNat 4

/-- A response to the host. -/
def respond (body : Bytes) : Bytes := ecb (P.aes defaultKey) (responsePlain P body)

/-! ### The device reads what the codec writes -/

theorem testBit_iff (frame : Bytes) : (frame.headD 0).toNat.testBit 4 = true ↔ Ordinary frame := by
  have hand : ((frame.headD 0) &&& 0x10).toNat =
      ((frame.headD 0).toNat.testBit 4).toNat * 2 ^ 4 := by
    rw [UInt8.toNat_and]
    exact Nat.and_two_pow _ 4
  rw [Ordinary, ne_eq, ← UInt8.toNat_inj, hand]
  cases (frame.headD 0).toNat.testBit 4 <;> decide

theorem keyFor_eq (self : ReferenceDevice) (frame : Bytes) :
    self.keyFor frame = if Ordinary frame then self.sessionKey.toList else defaultKey :=
  if_congr (testBit_iff frame) rfl rfl

theorem decrypt_eq (key frame : Bytes) :
    decrypt P key frame = window (P.aes key).symm frame := by
  rw [decrypt, window, slice_add frame 2 128]

/-- **Receiving** a frame that was encrypted with the key the device decrypts with. -/
theorem receive_window (self : ReferenceDevice) {frame command : Bytes}
    (hlen : frame.length = frameSize) (hcommand : frame.take commandSize = command)
    (hcrc : frame.drop commandSize = crcBytes P command) :
    self.receive P (window (P.aes (self.keyFor frame)) frame) =
      (some command, if Ordinary frame then self else { sessionKey := keyOf frame hlen }) := by
  have hhead (cipher) : Ordinary (window cipher frame) ↔ Ordinary frame := ordinary_window hlen
  have hkey (cipher) : self.keyFor (window cipher frame) = self.keyFor frame := by
    rw [keyFor_eq, keyFor_eq]
    exact if_congr (hhead cipher) rfl rfl
  have hplain : decrypt P (self.keyFor (window (P.aes (self.keyFor frame)) frame))
      (window (P.aes (self.keyFor frame)) frame) = frame := by
    rw [hkey, decrypt_eq, window_symm_window hlen]
  have hcheck : intFromBytes (frame.drop 128) = (P.crc32 (frame.take 128)).toNat := by
    rw [show frame.drop 128 = crcBytes P command from hcrc, show frame.take 128 = command from
      hcommand, intFromBytes_crcBytes]
  have htake : frame.take 128 = command := hcommand
  have hnew : newKey frame hlen = keyOf frame hlen := Subtype.ext (slice_add frame 16 16).symm
  have hsize : (window (P.aes (self.keyFor frame)) frame).length = 132 := length_window hlen
  rw [receive, dif_pos hsize]
  simp only [hplain, hcheck, htake, hnew, testBit_iff, hhead, ne_eq, not_true, if_false]
  split_ifs <;> rfl

end ReferenceDevice

/-- What the host decrypts is what the device responded. -/
theorem CommandCodec.decode_respond (P : Primitives) {body : Bytes} (h : body.length = 124)
    (rest : Bytes) :
    decode P (ReferenceDevice.respond P body ++ rest) =
      .ok (ReferenceDevice.responsePlain P body) := by
  have hlen : (ReferenceDevice.responsePlain P body).length = responseSize := by
    rw [ReferenceDevice.responsePlain, List.length_append, length_toBytes, h]
    rfl
  have hdvd : 16 ∣ (ReferenceDevice.responsePlain P body).length := by rw [hlen]; decide
  have hrespond : (ReferenceDevice.respond P body).length = responseSize := by
    rw [ReferenceDevice.respond, length_ecb (by norm_num) _ hdvd, hlen]
  have hplain : ecb (P.aes defaultKey).symm
      ((ReferenceDevice.respond P body ++ rest).take responseSize) =
        ReferenceDevice.responsePlain P body := by
    rw [List.take_left' hrespond, ReferenceDevice.respond, ecb_symm_ecb (by norm_num) _ hdvd]
  have hbody : (ReferenceDevice.responsePlain P body).take 124 = body := List.take_left' h
  have hcrc : slice (ReferenceDevice.responsePlain P body) 124 128 = crcBytes P body := by
    have hle : (ReferenceDevice.responsePlain P body).length ≤ 128 := hlen.le
    rw [slice, List.take_of_length_le hle]
    exact List.drop_left' h
  rw [decode, if_neg (by rw [List.length_append, hrespond]; omega)]
  simp only [hplain, hbody, hcrc, intFromBytes_crcBytes, ne_eq, not_true, if_false]

/-- A codec, and the device its frames go to. -/
structure Session where
  host : CommandCodec := {}
  device : ReferenceDevice := {}
  deriving DecidableEq

namespace Session

variable (P : Primitives)

/-- Encode one command; the frame, if there is one, goes to the device. The result is the exception
of the host or what the device recovers. -/
def send (self : Session) (command : Bytes) : Except ValueError (Option Bytes) × Session :=
  match self.host.encode P command with
  | (.error e, host) => (.error e, { self with host })
  | (.ok frame, host) =>
    let (recovered, device) := self.device.receive P frame
    (.ok recovered, { host, device })

/-- The results of a list of commands, and the session after it. -/
def sendAll (self : Session) : List Bytes → List (Except ValueError (Option Bytes)) × Session
  | [] => ([], self)
  | command :: commands =>
    let (result, session) := self.send P command
    let (results, session) := sendAll session commands
    (result :: results, session)

/-- The session key is the key of the next ordinary command. -/
def InStep (self : Session) : Prop := self.device.sessionKey = self.host.commandKey

/-- What becomes of a command: it reaches the device with zeros up to 128 bytes, unless it is too
long. -/
def outcome (command : Bytes) : Except ValueError (Option Bytes) :=
  if 128 < command.length then .error ⟨s!"command too long: {command.length} bytes"⟩
  else .ok (some (command ++ List.replicate (128 - command.length) 0))

/-- **One command** keeps the two in step. -/
theorem send_of_inStep {self : Session} (hstep : self.InStep) (command : Bytes) :
    (self.send P command).1 = outcome command ∧ (self.send P command).2.InStep := by
  by_cases h : command.length ≤ commandSize
  · have hkey : self.device.keyFor (plainFrame P command) =
        if Ordinary (plainFrame P command) then self.host.commandKey.toList else defaultKey := by
      rw [ReferenceDevice.keyFor_eq, hstep]
    have hreceive := self.device.receive_window P (length_plainFrame P h)
      (List.take_left' (length_padded h)) (List.drop_left' (length_padded h))
    rw [hkey] at hreceive
    have houtcome : outcome command = .ok (some (padded command)) := if_neg (not_lt.mpr h)
    rw [houtcome]
    by_cases hord : Ordinary (plainFrame P command)
    · rw [if_pos hord, if_pos hord] at hreceive
      simp only [send, encode_of_ordinary h hord, hreceive]
      exact ⟨trivial, hstep⟩
    · rw [if_neg hord, if_neg hord] at hreceive
      simp only [send, encode_of_not_ordinary h hord, hreceive]
      exact ⟨trivial, rfl⟩
  · have houtcome : outcome command =
        .error ⟨s!"command too long: {command.length} bytes"⟩ := if_pos (not_le.mp h)
    rw [send, encode_of_long (not_le.mp h), houtcome]
    exact ⟨rfl, hstep⟩

/-- **A run** of commands keeps the two in step, from any session that is. -/
theorem sendAll_of_inStep {self : Session} (hstep : self.InStep) (commands : List Bytes) :
    (self.sendAll P commands).1 = commands.map outcome ∧ (self.sendAll P commands).2.InStep := by
  induction commands generalizing self with
  | nil => exact ⟨rfl, hstep⟩
  | cons command commands ih =>
    obtain ⟨hresult, hnext⟩ := send_of_inStep P hstep command
    obtain ⟨hresults, hlast⟩ := ih hnext
    rw [sendAll, List.map_cons, ← hresult, ← hresults]
    exact ⟨rfl, hlast⟩

/-- **Sessions decode on the device side.** From the start, every list of commands is recovered
in order, each with zeros up to 128 bytes, and both sides are in step after it; a command that is
too long raises and changes no codec; and a response comes back as the body with its CRC. -/
theorem session_decodes (P : Primitives) :
    (∀ commands : List Bytes,
      ((({} : Session).sendAll P commands).1 = commands.map outcome ∧
        (({} : Session).sendAll P commands).2.device.sessionKey =
          (({} : Session).sendAll P commands).2.host.commandKey)) ∧
    (∀ (codec : CommandCodec) (command : {command : Bytes // 128 < command.length}),
      codec.encode P command =
        (.error ⟨s!"command too long: {command.val.length} bytes"⟩, codec)) ∧
    ∀ (body : {body : Bytes // body.length = 124}) (rest : Bytes),
      decode P (ReferenceDevice.respond P body ++ rest) =
        .ok (body ++ toBytes (P.crc32 body).toNat 4) := by
  have hinit : ({} : Session).InStep := rfl
  exact ⟨fun commands ↦ sendAll_of_inStep P hinit commands,
    fun codec command ↦ encode_of_long command.property,
    fun body rest ↦ decode_respond P body.property rest⟩

end Session

end Recdyud
