import Recdyud.Lib.Ecb
import Recdyud.Py

/-!
# Framing and encryption of control commands

A command is padded to 128 bytes and followed by its CRC-32; bytes 2 to 129 of that frame are
encrypted. A command whose first byte has bit 4 cleared is encrypted with the fixed key and sets
the key of the commands after it. A response is 128 bytes under the fixed key, its last four bytes
the CRC-32 of the others.

The block cipher and `zlib.crc32` come from libraries. They are the fields of `Primitives`: all that
is used of AES is that every key gives a permutation of the 16-byte blocks.

`encode` returns the codec with its result, so that the state after an exception is part of it.
-/

namespace Recdyud

def commandSize : ℕ := 128

def frameSize : ℕ := commandSize + 4

def responseSize : ℕ := 128

/-- An AES-128 key. -/
abbrev CommandKey := List.Vector UInt8 16

/-- `DEFAULT_KEY[:16]` -/
def defaultCommandKey : CommandKey :=
  ⟨[0x75, 0x93, 0xee, 0x38, 0x0d, 0x99, 0x44, 0x95, 0x9f, 0xc7, 0x67, 0x2c, 0x59, 0xeb, 0x1f, 0x69],
    rfl⟩

def defaultKey : Bytes := defaultCommandKey.toList ++ List.replicate 16 0

/-- `algorithms.AES` on one block, and `zlib.crc32`. -/
structure Primitives where
  aes : Bytes → Equiv.Perm (List.Vector UInt8 16)
  crc32 : Bytes → UInt32

/-- Primitives that leave every block as it is and take 0 for every checksum. -/
def Primitives.plain : Primitives := ⟨fun _ ↦ Equiv.refl _, fun _ ↦ 0⟩

structure ValueError where
  message : String
  deriving DecidableEq, Repr

structure ProtocolError where
  message : String
  deriving DecidableEq, Repr

/-- `self._default` is fixed, so the state is the key of `self._command`. -/
structure CommandCodec where
  commandKey : CommandKey := defaultCommandKey
  deriving DecidableEq

namespace CommandCodec

variable (P : Primitives)

/-- The four bytes behind the data they check. -/
def crcBytes (data : Bytes) : Bytes := toBytes (P.crc32 data).toNat 4

/-- `frame[: len(command)] = command` in a zeroed `bytearray(COMMAND_SIZE)` -/
def padded (command : Bytes) : Bytes :=
  command ++ List.replicate (commandSize - command.length) 0

@[simp] theorem length_crcBytes (data : Bytes) : (crcBytes P data).length = 4 :=
  length_toBytes _ _

theorem intFromBytes_crcBytes (data : Bytes) :
    intFromBytes (crcBytes P data) = (P.crc32 data).toNat := by
  rw [crcBytes, intFromBytes_toBytes]
  exact Nat.mod_eq_of_lt (P.crc32 data).toNat_lt

theorem length_padded {command : Bytes} (h : command.length ≤ commandSize) :
    (padded command).length = commandSize := by
  rw [padded, List.length_append, List.length_replicate]
  omega

/-- The frame before encryption. -/
def plainFrame (command : Bytes) : Bytes := padded command ++ crcBytes P (padded command)

theorem length_plainFrame {command : Bytes} (h : command.length ≤ commandSize) :
    (plainFrame P command).length = frameSize := by
  rw [plainFrame, List.length_append, length_padded h, length_crcBytes, frameSize]

/-- `frame[:2] + body + frame[130:]`, where `body` is `frame[2:130]` under a cipher -/
def window (cipher : Equiv.Perm (List.Vector UInt8 16)) (frame : Bytes) : Bytes :=
  frame.take 2 ++ ecb cipher (slice frame 2 130) ++ frame.drop 130

/-- `frame[0] & 0x10`: an ordinary command, which does not set a key. -/
def Ordinary (frame : Bytes) : Prop := frame.headD 0 &&& 0x10 ≠ 0

instance (frame : Bytes) : Decidable (Ordinary frame) :=
  inferInstanceAs (Decidable (_ ≠ _))

/-- `bytes(frame[16:32])` -/
def keyOf (frame : Bytes) (h : frame.length = frameSize) : CommandKey :=
  ⟨slice frame 16 32, by rw [length_slice, h]; rfl⟩

def encode (self : CommandCodec) (command : Bytes) : Except ValueError Bytes × CommandCodec :=
  if h : command.length ≤ commandSize then
    let frame := plainFrame P command
    if Ordinary frame then
      (.ok (window (P.aes self.commandKey.toList) frame), self)
    else
      -- the new key is taken from the plain frame
      (.ok (window (P.aes defaultKey) frame),
        { commandKey := keyOf frame (length_plainFrame P h) })
  else
    (.error ⟨s!"command too long: {command.length} bytes"⟩, self)

/-! ### The three outcomes of `encode` -/

section Encode

variable {P} {self : CommandCodec} {command : Bytes}

theorem encode_of_ordinary (h : command.length ≤ commandSize)
    (hord : Ordinary (plainFrame P command)) :
    self.encode P command
      = (.ok (window (P.aes self.commandKey.toList) (plainFrame P command)), self) := by
  rw [encode, dif_pos h]
  exact if_pos hord

theorem encode_of_not_ordinary (h : command.length ≤ commandSize)
    (hord : ¬Ordinary (plainFrame P command)) :
    self.encode P command
      = (.ok (window (P.aes defaultKey) (plainFrame P command)),
        { commandKey := keyOf (plainFrame P command) (length_plainFrame P h) }) := by
  rw [encode, dif_pos h]
  exact if_neg hord

theorem encode_of_long (h : commandSize < command.length) :
    self.encode P command = (.error ⟨s!"command too long: {command.length} bytes"⟩, self) := by
  rw [encode, dif_neg (not_le.mpr h)]

/-- A command that fits its frame raises nothing. -/
theorem encode_of_le (h : command.length ≤ commandSize) :
    ∃ frame codec, self.encode P command = (.ok frame, codec) := by
  by_cases hord : Ordinary (plainFrame P command)
  · exact ⟨_, _, encode_of_ordinary h hord⟩
  · exact ⟨_, _, encode_of_not_ordinary h hord⟩

/-- A command that raises leaves the codec as it was. -/
theorem encode_of_error {codec : CommandCodec} {e : ValueError}
    (h : self.encode P command = (.error e, codec)) : codec = self := by
  rcases Nat.lt_or_ge commandSize command.length with hlong | hle
  · rw [encode_of_long hlong] at h
    exact (Prod.mk.inj h).2.symm
  · by_cases hord : Ordinary (plainFrame P command)
    · rw [encode_of_ordinary hle hord] at h
      cases h
    · rw [encode_of_not_ordinary hle hord] at h
      cases h

end Encode

/-- `decode` does not touch the state of the codec. -/
def decode (response : Bytes) : Except ProtocolError Bytes :=
  if response.length < responseSize then
    .error ⟨s!"short response: {response.length} bytes"⟩
  else
    let plain := ecb (P.aes defaultKey).symm (response.take responseSize)
    if (P.crc32 (plain.take 124)).toNat ≠ intFromBytes (slice plain 124 128) then
      .error ⟨"response CRC mismatch"⟩
    else
      .ok plain

theorem length_of_decode_eq_ok {P : Primitives} {response res : Bytes}
    (h : decode P response = .ok res) : res.length = responseSize := by
  rw [decode] at h
  split at h
  · cases h
  rename_i hlen
  have htake : (response.take responseSize).length = responseSize := by
    rw [List.length_take]
    omega
  dsimp only at h
  split at h
  · cases h
  obtain rfl := Except.ok.inj h
  rw [length_ecb (by norm_num) _ (by rw [htake]; norm_num [responseSize]), htake]

/-! ## The encrypted window -/

section Window

variable {cipher : Equiv.Perm (List.Vector UInt8 16)} {frame : Bytes}

theorem length_encrypted (h : frame.length = frameSize) :
    (ecb cipher (slice frame 2 130)).length = 128 := by
  have hlen : (slice frame 2 130).length = 128 := by rw [length_slice, h]; rfl
  rw [length_ecb (by norm_num) _ (by rw [hlen]; norm_num), hlen]

theorem length_window (h : frame.length = frameSize) :
    (window cipher frame).length = frameSize := by
  rw [window, List.length_append, List.length_append, length_encrypted h, List.length_take,
    List.length_drop, h]
  rfl

/-- The first two bytes stay in clear. -/
theorem take_window (h : frame.length = frameSize) :
    (window cipher frame).take 2 = frame.take 2 := by
  rw [window, List.append_assoc, List.take_left']
  rw [List.length_take, h]
  rfl

theorem slice_window (h : frame.length = frameSize) :
    slice (window cipher frame) 2 130 = ecb cipher (slice frame 2 130) := by
  have htake : (frame.take 2).length = 2 := by rw [List.length_take, h]; rfl
  have hlen : (ecb cipher (slice frame 2 130)).length = 128 := length_encrypted h
  rw [window, slice, List.take_left', List.drop_left' htake]
  rw [List.length_append, htake, hlen]

theorem drop_window (h : frame.length = frameSize) :
    (window cipher frame).drop 130 = frame.drop 130 := by
  have htake : (frame.take 2).length = 2 := by rw [List.length_take, h]; rfl
  have hlen : (ecb cipher (slice frame 2 130)).length = 128 := length_encrypted h
  rw [window, List.drop_left']
  rw [List.length_append, htake, hlen]

/-- **Decryption** of the window gives the frame back. -/
theorem window_symm_window (h : frame.length = frameSize) :
    window cipher.symm (window cipher frame) = frame := by
  have hlen : (slice frame 2 130).length = 128 := by rw [length_slice, h]; rfl
  have hdvd : 16 ∣ (slice frame 2 130).length := by rw [hlen]; norm_num
  have hsplit : frame.take 2 ++ slice frame 2 130 = frame.take 130 := by
    simpa [slice, List.take_take] using List.take_append_drop 2 (frame.take 130)
  calc window cipher.symm (window cipher frame)
      = frame.take 2 ++ ecb cipher.symm (ecb cipher (slice frame 2 130)) ++ frame.drop 130 := by
        rw [window, take_window h, slice_window h, drop_window h]
    _ = frame.take 2 ++ slice frame 2 130 ++ frame.drop 130 := by
        rw [ecb_symm_ecb (by norm_num) cipher hdvd]
    _ = frame := by
        rw [hsplit, List.take_append_drop]

theorem ordinary_window (h : frame.length = frameSize) :
    Ordinary (window cipher frame) ↔ Ordinary frame := by
  have hhead : ∀ data : Bytes, data.headD 0 = (data.take 2).headD 0 := by
    rintro (_ | ⟨b, data⟩) <;> rfl
  rw [Ordinary, Ordinary, hhead, take_window h, ← hhead]

end Window

end CommandCodec

/-! ## T=1 blocks -/

/-- Wrap an APDU into the vendor command that carries a T=1 I-block. -/
def t1Block (apdu : Bytes) (pcb : UInt8) : Except ValueError Bytes :=
  if apdu.length > 115 then
    .error ⟨s!"APDU too long for DY-UD200: {apdu.length} bytes (max 115)"⟩
  else
    let n := apdu.length
    let block : Bytes := [0x00, pcb, UInt8.ofNat n] ++ apdu
    let lrc := block.foldl (fun lrc b ↦ lrc ^^^ b) 0
    let block := block ++ [lrc]
    .ok ([0x1f, 0xf0, 0xf0, UInt8.ofNat (n + 9), 0x02, 0x00, 0x31] ++ toBytes (n + 4) 2 ++ block)

/-- The block around an APDU, from NAD to LRC. -/
def vendorBlock (apdu : Bytes) (pcb : UInt8) : Bytes :=
  let body := [0x00, pcb, UInt8.ofNat apdu.length] ++ apdu
  body ++ [body.foldl (· ^^^ ·) 0]

/-- The command around the block. -/
def vendorCommand (apdu : Bytes) (pcb : UInt8) : Bytes :=
  [0x1f, 0xf0, 0xf0, UInt8.ofNat (apdu.length + 9), 0x02, 0x00, 0x31]
    ++ toBytes (apdu.length + 4) 2 ++ vendorBlock apdu pcb

theorem t1Block_eq_ok {apdu : Bytes} (h : apdu.length ≤ 115) (pcb : UInt8) :
    t1Block apdu pcb = .ok (vendorCommand apdu pcb) :=
  if_neg (not_lt.mpr h)

theorem t1Block_eq_ok_iff {apdu cmd : Bytes} {pcb : UInt8} :
    t1Block apdu pcb = .ok cmd ↔ apdu.length ≤ 115 ∧ vendorCommand apdu pcb = cmd := by
  rcases Nat.lt_or_ge 115 apdu.length with hlong | hle
  · rw [t1Block, if_pos hlong]
    simp [hlong]
  · rw [t1Block_eq_ok hle, Except.ok.injEq]
    simp [hle]

@[simp] theorem length_vendorBlock (apdu : Bytes) (pcb : UInt8) :
    (vendorBlock apdu pcb).length = apdu.length + 4 := by
  simp only [vendorBlock, List.length_append, List.length_cons, List.length_nil]
  omega

@[simp] theorem length_vendorCommand (apdu : Bytes) (pcb : UInt8) :
    (vendorCommand apdu pcb).length = apdu.length + 13 := by
  simp only [vendorCommand, List.length_append, List.length_cons, List.length_nil, length_toBytes,
    length_vendorBlock]
  omega

end Recdyud
