import Recdyud.Bcas.CardId
import Recdyud.Device.Commands

/-!
# The B-CAS card

`BCasCard` talks to the card through a transport that carries APDUs. The bodies of ECM and EMM
sections are wrapped into an APDU, and the tuner wraps the APDU into a T=1 block and that into a
vendor command. The bounds of the layers fit: what `process_ecm` and `process_emm` let through is
never refused further down, and a reader of the vendor command finds the body again
(`ecm_emm_lossless`).
-/

namespace Recdyud

open CommandCodec

def cmdInitialSettingConditions : Bytes := [0x90, 0x30, 0x00, 0x00, 0x00]
def cmdCardIdInformation : Bytes := [0x90, 0x32, 0x00, 0x00, 0x00]
def ecmHeader : Bytes := [0x90, 0x34, 0x00, 0x00]
def emmHeader : Bytes := [0x90, 0x36, 0x00, 0x00]

/-- The DY-UD200 can carry at most 115 APDU bytes: header(4) + Lc(1) + data + Le(1). -/
def maxEcmEmmSize : ℕ := 115 - 6

def returnCodeOk : ℕ := 0x2100

/-- What carries APDUs to the card; `ε` are its exceptions. -/
class Transport (τ : Type) (ε : outParam Type) where
  bcasReset : τ → Except ε Unit × τ
  bcasTransmit : Bytes → τ → Except ε Bytes × τ

/-- The tuner as a transport. -/
@[reducible] def DyUd200.transport (P : Primitives) (ω : Type) [Usb ω] :
    Transport (DyUd200 ω) Raised where
  bcasReset self := self.bcasReset P
  bcasTransmit apdu self := self.bcasTransmit P apdu

structure InitStatus where
  systemKey : Bytes
  initCbc : Bytes
  cardId : ℕ
  cardStatus : ℕ
  caSystemId : ℕ
  deriving DecidableEq, Repr

/-- `f"{n:#06x}"` for a number of two bytes -/
def hex06 (n : ℕ) : String :=
  String.ofList (['0', 'x'] ++ (Nat.toDigits 16 n).leftpad 4 '0')

def parseInitResponse (r : Bytes) : Except CardRaised InitStatus :=
  if r.length < 57 then
    .error (.cardError ⟨s!"INT response too short ({r.length} bytes)"⟩)
  else
    let code := intFromBytes (slice r 4 6)
    if code ≠ returnCodeOk then
      .error (.cardError ⟨s!"INT returned {hex06 code} (is a B-CAS card inserted?)"⟩)
    else
      .ok {
        systemKey := slice r 16 48
        initCbc := slice r 48 56
        cardId := intFromBytes (slice r 8 14)
        cardStatus := intFromBytes (slice r 2 4)
        caSystemId := intFromBytes (slice r 6 8) }

/-- An exception out of a method of the card: its own, or one of the transport. -/
inductive BCasRaised (ε : Type) where
  | card (e : CardRaised)
  | transport (e : ε)
  deriving DecidableEq, Repr

structure BCasCard (τ : Type) where
  transport : τ
  status : Option InitStatus := none
  ids : List CardId := []
  ecmCount : ℕ := 0
  ecmErrors : ℕ := 0
  deriving DecidableEq, Repr

/-- `header + bytes([len(body)]) + body + b"\x00"` -/
def wrap (header body : Bytes) : Bytes :=
  header ++ [UInt8.ofNat body.length] ++ body ++ [0x00]

namespace BCasCard

variable {τ ε : Type} [Transport τ ε]

/-- `initialize` -/
def initializeCard (self : BCasCard τ) : Except (BCasRaised ε) InitStatus × BCasCard τ :=
  match Transport.bcasReset self.transport with
  | (.error e, transport) => (.error (.transport e), { self with transport })
  | (.ok (), transport) =>
    match Transport.bcasTransmit cmdInitialSettingConditions transport with
    | (.error e, transport) => (.error (.transport e), { self with transport })
    | (.ok r, transport) =>
      match parseInitResponse r with
      | .error e => (.error (.card e), { self with transport })
      | .ok status =>
        let self := { self with status := some status }
        match Transport.bcasTransmit cmdCardIdInformation transport with
        | (.error e, transport) => (.error (.transport e), { self with transport })
        | (.ok r, transport) =>
          match parseIdResponse r with
          | .error e => (.error (.card e), { self with transport })
          | .ok ids => (.ok status, { self with transport, ids })

/-- Return (Ks odd||even, return code) for an ECM section body. -/
def processEcm (self : BCasCard τ) (ecm : Bytes) :
    Except (BCasRaised ε) (Bytes × ℕ) × BCasCard τ :=
  if ecm.length > maxEcmEmmSize then
    (.error (.card (.cardError ⟨s!"ECM too large for DY-UD200 ({ecm.length} bytes)"⟩)), self)
  else
    let self := { self with ecmCount := self.ecmCount + 1 }
    match Transport.bcasTransmit (wrap ecmHeader ecm) self.transport with
    | (.error e, transport) =>
      (.error (.transport e), { self with transport, ecmErrors := self.ecmErrors + 1 })
    | (.ok r, transport) =>
      if r.length < 25 then
        (.error (.card (.cardError ⟨s!"ECM response too short ({r.length} bytes)"⟩)),
          { self with transport, ecmErrors := self.ecmErrors + 1 })
      else
        (.ok (slice r 6 22, intFromBytes (slice r 4 6)), { self with transport })

def processEmm (self : BCasCard τ) (emm : Bytes) : Except (BCasRaised ε) Unit × BCasCard τ :=
  if emm.length > maxEcmEmmSize then
    (.error (.card (.cardError ⟨s!"EMM too large for DY-UD200 ({emm.length} bytes)"⟩)), self)
  else
    match Transport.bcasTransmit (wrap emmHeader emm) self.transport with
    | (.error e, transport) => (.error (.transport e), { self with transport })
    | (.ok r, transport) =>
      if r.length < 6 then
        (.error (.card (.cardError ⟨s!"EMM response too short ({r.length} bytes)"⟩)),
          { self with transport })
      else
        (.ok (), { self with transport })

end BCasCard

/-! ## What is sent -/

/-- A transport that keeps a list of the APDUs given to it. -/
structure ApduRecorder (τ : Type) where
  inner : τ
  sent : List Bytes := []
  deriving DecidableEq, Repr

instance {τ ε : Type} [Transport τ ε] : Transport (ApduRecorder τ) ε where
  bcasReset self :=
    ((Transport.bcasReset self.inner).1,
      { self with inner := (Transport.bcasReset self.inner).2 })
  bcasTransmit apdu self :=
    ((Transport.bcasTransmit apdu self.inner).1,
      { inner := (Transport.bcasTransmit apdu self.inner).2, sent := self.sent ++ [apdu] })

section Sent

variable {τ ε : Type} [Transport τ ε]

theorem sent_bcasTransmit (apdu : Bytes) (t : ApduRecorder τ) :
    (Transport.bcasTransmit apdu t).2.sent = t.sent ++ [apdu] := rfl

/-- A call either sends the APDU around its body, or refuses the body and changes nothing. -/
def SendsOrRefuses {α : Type} (header body : Bytes) (card : BCasCard (ApduRecorder τ))
    (result : Except (BCasRaised ε) α × BCasCard (ApduRecorder τ)) : Prop :=
  if 109 < body.length then ∃ e, result = (.error (.card (.cardError e)), card)
  else result.2.transport.sent = card.transport.sent ++ [wrap header body]

theorem BCasCard.processEcm_sends (card : BCasCard (ApduRecorder τ)) (ecm : Bytes) :
    SendsOrRefuses ecmHeader ecm card (card.processEcm ecm) := by
  rw [SendsOrRefuses, processEcm]
  split
  · rename_i hlong
    exact ⟨_, if_pos hlong⟩
  · rename_i hfits
    rw [if_neg (show ¬ecm.length > maxEcmEmmSize from hfits)]
    have hsent := sent_bcasTransmit (wrap ecmHeader ecm) card.transport
    dsimp only
    rcases ht : Transport.bcasTransmit (wrap ecmHeader ecm) card.transport with ⟨e | r, t⟩ <;>
      rw [ht] at hsent
    · exact hsent
    · dsimp only
      split
      · exact hsent
      · exact hsent

theorem BCasCard.processEmm_sends (card : BCasCard (ApduRecorder τ)) (emm : Bytes) :
    SendsOrRefuses emmHeader emm card (card.processEmm emm) := by
  rw [SendsOrRefuses, processEmm]
  split
  · rename_i hlong
    exact ⟨_, if_pos hlong⟩
  · rename_i hfits
    rw [if_neg (show ¬emm.length > maxEcmEmmSize from hfits)]
    have hsent := sent_bcasTransmit (wrap emmHeader emm) card.transport
    rcases ht : Transport.bcasTransmit (wrap emmHeader emm) card.transport with ⟨e | r, t⟩ <;>
      rw [ht] at hsent
    · exact hsent
    · dsimp only
      split
      · exact hsent
      · exact hsent

end Sent

/-! ## Reading a vendor command -/

/-- A reader of the vendor command: the PCB and the INF field, if both lengths and the checksum are
right. -/
def readVendorCommand (cmd : Bytes) : Option (UInt8 × Bytes) :=
  let block := cmd.drop 9
  let inf := (block.drop 3).dropLast
  if cmd.take 3 = [0x1f, 0xf0, 0xf0] ∧ slice cmd 4 7 = [0x02, 0x00, 0x31]
      ∧ (cmd.getD 3 0).toNat = (cmd.drop 4).length ∧ intFromBytes (slice cmd 7 9) = block.length
      ∧ (block.getD 2 0).toNat = inf.length ∧ block.foldl (· ^^^ ·) 0 = 0 then
    some (block.getD 1 0, inf)
  else
    none

/-- What a vendor command says of the APDU in it. -/
structure Carries (cmd apdu : Bytes) (pcb : UInt8) : Prop where
  length_le : cmd.length ≤ 128
  /-- No value was cut down to fit its byte. -/
  values : ∃ lrc : UInt8, cmd.map UInt8.toNat
    = [0x1f, 0xf0, 0xf0, apdu.length + 9, 0x02, 0x00, 0x31, (apdu.length + 4) / 256,
        (apdu.length + 4) % 256, 0x00, pcb.toNat, apdu.length]
      ++ apdu.map UInt8.toNat ++ [lrc.toNat]
  commandLength : (cmd.getD 3 0).toNat = (cmd.drop 4).length
  blockLength : intFromBytes (slice cmd 7 9) = (cmd.drop 9).length
  checksum : (cmd.drop 9).foldl (· ^^^ ·) 0 = 0
  read : readVendorCommand cmd = some (pcb, apdu)
  encodes : ∀ (P : Primitives) (codec : CommandCodec), ∃ frame codec',
    codec.encode P cmd = (.ok frame, codec')

section Carries

variable {apdu cmd : Bytes} {pcb : UInt8}

/-- A checksum of what precedes it brings the checksum of the whole to zero. -/
theorem foldl_xor_concat (s : Bytes) :
    (s ++ [s.foldl (· ^^^ ·) 0]).foldl (· ^^^ ·) (0 : UInt8) = 0 := by
  rw [List.foldl_append]
  exact UInt8.xor_self

/-- **A block carries its APDU**: all lengths are right, nothing is cut, and it is read back. -/
theorem carries_vendorCommand (h : apdu.length ≤ 115) (pcb : UInt8) :
    Carries (vendorCommand apdu pcb) apdu pcb := by
  have hblock : (vendorCommand apdu pcb).drop 9 = vendorBlock apdu pcb := rfl
  have hbytes : slice (vendorCommand apdu pcb) 7 9 = toBytes (apdu.length + 4) 2 := rfl
  have hinf : ((vendorBlock apdu pcb).drop 3).dropLast = apdu := List.dropLast_concat
  have hcommand : (UInt8.ofNat (apdu.length + 9)).toNat = apdu.length + 9 :=
    Nat.mod_eq_of_lt (by omega)
  have hlength : (UInt8.ofNat apdu.length).toNat = apdu.length := Nat.mod_eq_of_lt (by omega)
  have hcommandLength : ((vendorCommand apdu pcb).getD 3 0).toNat
      = ((vendorCommand apdu pcb).drop 4).length := by
    rw [List.length_drop, length_vendorCommand]
    exact hcommand
  have hblockLength : intFromBytes (slice (vendorCommand apdu pcb) 7 9)
      = ((vendorCommand apdu pcb).drop 9).length := by
    rw [hbytes, intFromBytes_toBytes, Nat.mod_eq_of_lt (by omega), hblock, length_vendorBlock]
  have hchecksum : ((vendorCommand apdu pcb).drop 9).foldl (· ^^^ ·) 0 = 0 := foldl_xor_concat _
  refine ⟨?_, ⟨([0x00, pcb, UInt8.ofNat apdu.length] ++ apdu).foldl (· ^^^ ·) 0, ?_⟩,
    hcommandLength, hblockLength, hchecksum, ?_, fun P codec ↦ encode_of_le ?_⟩
  · rw [length_vendorCommand]
    omega
  · have hhigh : (UInt8.ofNat ((apdu.length + 4) >>> 8)).toNat = (apdu.length + 4) / 256 := by
      rw [Nat.shiftRight_eq_div_pow]
      exact Nat.mod_eq_of_lt (by omega)
    have hnumber : (toBytes (apdu.length + 4) 2).map UInt8.toNat
        = [(apdu.length + 4) / 256, (apdu.length + 4) % 256] := by
      rw [← hhigh]
      rfl
    rw [vendorCommand, vendorBlock]
    simp only [List.map_append, hnumber, List.map_cons, List.map_nil, hcommand, hlength]
    simp only [List.cons_append, List.nil_append]
    rfl
  · refine (if_pos ⟨rfl, rfl, hcommandLength, hblockLength, ?_, hchecksum⟩).trans ?_
    · rw [hblock, hinf]
      rfl
    · rw [hblock, hinf]
      exact hlength
  · rw [length_vendorCommand, commandSize]
    omega

/-- An APDU and a PCB that give the same command are the same. -/
theorem t1Block_injective {apdu' : Bytes} {pcb' : UInt8} (h : t1Block apdu pcb = .ok cmd)
    (h' : t1Block apdu' pcb' = .ok cmd) : apdu = apdu' ∧ pcb = pcb' := by
  obtain ⟨hle, rfl⟩ := t1Block_eq_ok_iff.mp h
  obtain ⟨hle', hcmd⟩ := t1Block_eq_ok_iff.mp h'
  have hread := (carries_vendorCommand hle pcb).read
  rw [← hcmd, (carries_vendorCommand hle' pcb').read] at hread
  obtain ⟨hpcb, hapdu⟩ := Prod.mk.inj (Option.some.inj hread)
  exact ⟨hapdu.symm, hpcb.symm⟩

end Carries

theorem length_wrap {header : Bytes} (h : header.length = 4) (body : Bytes) :
    (wrap header body).length = body.length + 6 := by
  simp only [wrap, List.length_append, List.length_cons, List.length_nil, h]
  omega

/-- **ECM and EMM bodies are wrapped without loss and fit at every layer**: a body of more than 109
bytes is refused before anything is sent; around any other one an APDU of at most 115 bytes is sent,
and around that, for every PCB, a command of at most 128 bytes that every codec encodes and from
which the PCB and the APDU are read back. -/
theorem ecm_emm_lossless {τ ε : Type} [Transport τ ε] (card : BCasCard (ApduRecorder τ))
    (e : Bytes) :
    SendsOrRefuses ecmHeader e card (card.processEcm e)
    ∧ SendsOrRefuses emmHeader e card (card.processEmm e)
    ∧ (∀ header ∈ [ecmHeader, emmHeader], e.length ≤ 109 →
      wrap header e = header ++ [UInt8.ofNat e.length] ++ e ++ [0x00]
      ∧ (UInt8.ofNat e.length).toNat = e.length
      ∧ (wrap header e).length ≤ 115
      ∧ ∀ pcb, ∃ cmd, t1Block (wrap header e) pcb = .ok cmd ∧ Carries cmd (wrap header e) pcb)
    ∧ ∀ (apdu apdu' cmd : Bytes) (pcb pcb' : UInt8), t1Block apdu pcb = .ok cmd →
      t1Block apdu' pcb' = .ok cmd → apdu = apdu' ∧ pcb = pcb' := by
  refine ⟨card.processEcm_sends e, card.processEmm_sends e, fun header hheader hle ↦ ?_,
    fun apdu apdu' cmd pcb pcb' ↦ t1Block_injective⟩
  have hfour : header.length = 4 := by
    rcases List.mem_pair.mp hheader with rfl | rfl
    · rfl
    · rfl
  have hapdu : (wrap header e).length ≤ 115 := by
    rw [length_wrap hfour]
    omega
  exact ⟨rfl, Nat.mod_eq_of_lt (by omega), hapdu, fun pcb ↦
    ⟨_, t1Block_eq_ok hapdu pcb, carries_vendorCommand hapdu pcb⟩⟩

/-- A card that answers every APDU with zeros. -/
@[reducible] def zeroTransport : Transport Unit Raised where
  bcasReset u := (.ok (), u)
  bcasTransmit _ u := (.ok (List.replicate 25 0), u)

/-- The largest body that is sent, and one that is larger. -/
theorem ecm_emm_lossless_largest :
    letI := zeroTransport
    ((⟨⟨(), []⟩, none, [], 0, 0⟩ : BCasCard (ApduRecorder Unit)).processEcm
      (List.replicate 109 0xAA)).2.transport.sent = [wrap ecmHeader (List.replicate 109 0xAA)]
    ∧ ((⟨⟨(), []⟩, none, [], 0, 0⟩ : BCasCard (ApduRecorder Unit)).processEmm
      (List.replicate 110 0xAA)).2.transport.sent = []
    ∧ ∃ cmd, t1Block (wrap ecmHeader (List.replicate 109 0xAA)) 0x40 = .ok cmd
      ∧ cmd.length ≤ 128 := by
  let _ := zeroTransport
  obtain ⟨hecm, -, hfits, -⟩ :=
    ecm_emm_lossless (⟨⟨(), []⟩, none, [], 0, 0⟩ : BCasCard (ApduRecorder Unit))
      (List.replicate 109 0xAA)
  obtain ⟨-, hemm, -, -⟩ :=
    ecm_emm_lossless (⟨⟨(), []⟩, none, [], 0, 0⟩ : BCasCard (ApduRecorder Unit))
      (List.replicate 110 0xAA)
  rw [SendsOrRefuses, if_neg (by decide)] at hecm
  rw [SendsOrRefuses, if_pos (by decide)] at hemm
  obtain ⟨-, -, -, hblock⟩ := hfits ecmHeader List.mem_cons_self (by decide)
  obtain ⟨cmd, hcmd, hcarries⟩ := hblock 0x40
  obtain ⟨e, he⟩ := hemm
  refine ⟨hecm, ?_, cmd, hcmd, hcarries.length_le⟩
  rw [he]

/-! ## What the transport raises -/

section Raises

variable {τ ε : Type} [Transport τ ε]

/-- The transport raised `e` for an APDU that fits, or for a reset. -/
def RaisedForFitting (τ : Type) {ε : Type} [Transport τ ε] (e : ε) : Prop :=
  (∃ (apdu : Bytes) (t t' : τ), apdu.length ≤ 115 ∧ Transport.bcasTransmit apdu t = (.error e, t'))
    ∨ ∃ t t' : τ, Transport.bcasReset t = (.error e, t')

variable {card : BCasCard τ} {body : Bytes} {e : ε}

theorem length_wrap_le {header : Bytes} (h : header.length = 4)
    (hfits : ¬body.length > maxEcmEmmSize) : (wrap header body).length ≤ 115 := by
  rw [length_wrap h]
  rw [maxEcmEmmSize] at hfits
  omega

theorem BCasCard.processEcm_raises (h : (card.processEcm body).1 = .error (.transport e)) :
    RaisedForFitting τ e := by
  rw [processEcm] at h
  split at h
  · cases h
  rename_i hfits
  dsimp only at h
  rcases ht : Transport.bcasTransmit (wrap ecmHeader body) card.transport with ⟨e' | r, t⟩ <;>
    rw [ht] at h
  · obtain rfl := BCasRaised.transport.inj (Except.error.inj h)
    exact .inl ⟨_, _, _, length_wrap_le rfl hfits, ht⟩
  · dsimp only at h
    split at h <;> cases h

theorem BCasCard.processEmm_raises (h : (card.processEmm body).1 = .error (.transport e)) :
    RaisedForFitting τ e := by
  rw [processEmm] at h
  split at h
  · cases h
  rename_i hfits
  rcases ht : Transport.bcasTransmit (wrap emmHeader body) card.transport with ⟨e' | r, t⟩ <;>
    rw [ht] at h
  · obtain rfl := BCasRaised.transport.inj (Except.error.inj h)
    exact .inl ⟨_, _, _, length_wrap_le rfl hfits, ht⟩
  · dsimp only at h
    split at h <;> cases h

theorem BCasCard.initializeCard_raises (h : card.initializeCard.1 = .error (.transport e)) :
    RaisedForFitting τ e := by
  rw [initializeCard] at h
  rcases hr : Transport.bcasReset card.transport with ⟨e' | _, t⟩ <;> rw [hr] at h
  · obtain rfl := BCasRaised.transport.inj (Except.error.inj h)
    exact .inr ⟨_, _, hr⟩
  dsimp only at h
  rcases ht : Transport.bcasTransmit cmdInitialSettingConditions t with ⟨e' | r, t'⟩ <;>
    rw [ht] at h
  · obtain rfl := BCasRaised.transport.inj (Except.error.inj h)
    exact .inl ⟨_, _, _, by decide, ht⟩
  dsimp only at h
  rcases hp : parseInitResponse r with e' | status <;> rw [hp] at h
  · cases h
  dsimp only at h
  rcases hi : Transport.bcasTransmit cmdCardIdInformation t' with ⟨e' | r', t''⟩ <;> rw [hi] at h
  · obtain rfl := BCasRaised.transport.inj (Except.error.inj h)
    exact .inl ⟨_, _, _, by decide, hi⟩
  dsimp only at h
  rcases hids : parseIdResponse r' with e' | ids <;> rw [hids] at h <;> cases h

end Raises

section Tuner

variable {P : Primitives} {ω : Type} [Usb ω] {tuner tuner' : DyUd200 ω} {e : Raised}

theorem DyUd200.bcasReset_raises (h : tuner.bcasReset P = (.error e, tuner')) :
    ∃ message, e = .deviceError message := by
  rw [bcasReset] at h
  rcases hd : tuner.command P cmdBcasDeactivate false with ⟨e' | _, s⟩
  · rw [hd] at h
    obtain rfl := Except.error.inj (Prod.mk.inj h).1
    exact command_raises (by decide) (by decide) hd
  rw [hd] at h
  simp only at h
  rcases ha : s.command P cmdBcasActivate false with ⟨e' | _, s'⟩
  · rw [ha] at h
    obtain rfl := Except.error.inj (Prod.mk.inj h).1
    exact command_raises (by decide) (by decide) ha
  · rw [ha] at h
    cases h

/-- Over the tuner, whatever the card sends fits: the tuner raises nothing but `DeviceError`. -/
theorem BCasCard.tuner_raises (P : Primitives) (card : BCasCard (DyUd200 ω)) (body : Bytes) :
    letI := DyUd200.transport P ω
    (card.processEcm body).1 = .error (.transport e)
      ∨ (card.processEmm body).1 = .error (.transport e)
      ∨ card.initializeCard.1 = .error (.transport e) → ∃ message, e = .deviceError message := by
  let _ := DyUd200.transport P ω
  intro h
  have hraised : RaisedForFitting (DyUd200 ω) e := by
    rcases h with h | h | h
    · exact processEcm_raises h
    · exact processEmm_raises h
    · exact initializeCard_raises h
  rcases hraised with ⟨apdu, t, t', hlen, ht⟩ | ⟨t, t', ht⟩
  · exact DyUd200.bcasTransmit_raises hlen ht
  · exact DyUd200.bcasReset_raises ht

end Tuner

end Recdyud
