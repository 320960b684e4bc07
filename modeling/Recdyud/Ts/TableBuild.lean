import Recdyud.Ts.Packetisation

/-!
# Building sections

`psi_section` and `section_packets` of the test helpers: a section is a header with its length, the
body and the CRC of both, and it travels in packets of 184 bytes, the last one filled up.

A section so built checks (`validSection_psiSection`): the CRC register is shifted out by its own
bytes, whatever its contents. And the packets are a legal packetisation of the one section
(`legalPacketisation_sectionPackets`), so a fresh assembler gives the section back.
-/

namespace Recdyud

/-! ## The CRC of a message and its CRC -/

theorem crcTable_lt {i : ℕ} (h : i < crcTable.length) : crcTable[i] < 2 ^ 32 := by
  simp only [crcTable, List.getElem_map]
  exact Nat.and_lt_two_pow _ (by decide)

theorem crcByte_lt (crc : ℕ) (b : UInt8) : crcByte crc b < 2 ^ 32 :=
  Nat.xor_lt_two_pow (Nat.and_lt_two_pow _ (by decide)) (crcTable_lt _)

theorem crc32Mpeg2_lt (data : Bytes) : crc32Mpeg2 data < 2 ^ 32 := by
  induction data using List.reverseRecOn with
  | nil => decide
  | append_singleton data b _ =>
    rw [crc32Mpeg2, List.foldl_append]
    exact crcByte_lt _ b

theorem crcTable_zero (h : 0 < crcTable.length) : crcTable[0] = 0 := by
  simp only [crcTable, List.getElem_map, List.getElem_range]
  decide

/-- The top byte of the register meets itself, and the rest moves up. -/
theorem crcByte_own {crc : ℕ} {b : UInt8} (h : b.toNat = crc >>> 24) :
    crcByte crc b = crc * 256 % 2 ^ 32 := by
  simp only [crcByte, h, Nat.xor_self, Nat.zero_and, List.get_eq_getElem, crcTable_zero,
    Nat.xor_zero]
  rw [Nat.shiftLeft_eq]
  exact Nat.and_two_pow_sub_one_eq_mod _ 32

/-- **A message checks against its own CRC.** -/
theorem crc32Mpeg2_append_crc (data : Bytes) :
    crc32Mpeg2 (data ++ toBytes (crc32Mpeg2 data) 4) = 0 := by
  have hlt := crc32Mpeg2_lt data
  rw [crc32Mpeg2, List.foldl_append, ← crc32Mpeg2]
  generalize crc32Mpeg2 data = crc at hlt ⊢
  have hbytes : toBytes crc 4 = [UInt8.ofNat (crc >>> 24), UInt8.ofNat (crc >>> 16),
    UInt8.ofNat (crc >>> 8), UInt8.ofNat (crc >>> 0)] := rfl
  have htop (c k : ℕ) (hc : c / 2 ^ 24 = crc / 2 ^ k % 256) :
      crcByte c (UInt8.ofNat (crc >>> k)) = c * 256 % 2 ^ 32 := by
    refine crcByte_own ?_
    rw [Nat.shiftRight_eq_div_pow c, hc, UInt8.toNat_ofNat', Nat.shiftRight_eq_div_pow]
  rw [hbytes, List.foldl_cons, List.foldl_cons, List.foldl_cons, List.foldl_cons, List.foldl_nil,
    htop crc 24 (by omega), htop _ 16 (by omega), htop _ 8 (by omega), htop _ 0 (by omega)]
  omega

/-! ## `psi_section` -/

/-- What `psi_section` puts in front of the CRC. -/
def psiContent (tableId : UInt8) (ext : ℕ) (body : Bytes) (version : ℕ) : Bytes :=
  let length := 5 + body.length + 4
  [tableId, (0xB0 : UInt8) ||| UInt8.ofNat (length >>> 8), UInt8.ofNat (length &&& 0xFF)]
    ++ toBytes ext 2 ++ [(0xC1 : UInt8) ||| UInt8.ofNat (version <<< 1), 0x00, 0x00] ++ body

/-- `psi_section` -/
def psiSection (tableId : UInt8) (ext : ℕ) (body : Bytes) (version : ℕ := 0) : Bytes :=
  let sec := psiContent tableId ext body version
  sec ++ toBytes (crc32Mpeg2 sec) 4

section PsiSection

variable {tableId : UInt8} {ext version : ℕ} {body : Bytes}

theorem psiSection_table_id : (psiSection tableId ext body version)[0]? = some tableId := rfl

/-- The body stands behind eight bytes of header, and the CRC behind the body. -/
theorem exists_drop_psiSection : ∃ crc : Bytes, crc.length = 4
    ∧ (psiSection tableId ext body version).drop 8 = body ++ crc :=
  ⟨toBytes (crc32Mpeg2 (psiContent tableId ext body version)) 4, length_toBytes _ _, rfl⟩

theorem length_psiSection :
    (psiSection tableId ext body version).length = 8 + body.length + 4 := by
  rw [psiSection, List.length_append, length_toBytes, psiContent]
  simp only [List.length_append, List.length_cons, List.length_nil, length_toBytes]

theorem psiSection_ne_nil : psiSection tableId ext body version ≠ [] :=
  List.ne_nil_of_length_pos (by rw [length_psiSection]; omega)

/-- The table id extension: the transport stream, or the network. -/
theorem intFromBytes_ext (hext : ext < 65536) :
    intFromBytes (slice (psiSection tableId ext body version) 3 5) = ext := by
  have hdrop : (psiSection tableId ext body version).drop 3
      = toBytes ext 2 ++ (psiSection tableId ext body version).drop 5 := rfl
  exact intFromBytes_of_drop hdrop hext rfl

theorem sectionSize_psiSection (hfits : 5 + body.length + 4 < 4096) :
    SectionAssembler.sectionSize (psiSection tableId ext body version) = 8 + body.length + 4 := by
  set length := 5 + body.length + 4 with hlength
  have h1 : (psiSection tableId ext body version).getD 1 0
      = (0xB0 : UInt8) ||| UInt8.ofNat (length >>> 8) := rfl
  have h2 : (psiSection tableId ext body version).getD 2 0 = UInt8.ofNat (length &&& 0xFF) := rfl
  have hhigh : (((0xB0 : UInt8) ||| UInt8.ofNat (length >>> 8)) &&& 0x0F).toNat = length / 256 := by
    rw [UInt8.toNat_and, UInt8.toNat_or, UInt8.toNat_ofNat', Nat.shiftRight_eq_div_pow,
      Nat.mod_eq_of_lt (by omega)]
    exact or_and_mask 4 (by decide) (by omega)
  have hlow : (UInt8.ofNat (length &&& 0xFF)).toNat = length % 256 := by
    rw [UInt8.toNat_ofNat']
    have hmask : length &&& 0xFF = length % 256 := Nat.and_two_pow_sub_one_eq_mod length 8
    rw [hmask, Nat.mod_mod]
  rw [SectionAssembler.sectionSize, h1, h2, hhigh, hlow,
    ← Nat.shiftLeft_add_eq_or_of_lt (by omega), Nat.shiftLeft_eq]
  omega

/-- **A section that is built checks.** -/
theorem validSection_psiSection (htable : tableId ≠ 0xFF) (hfits : 5 + body.length + 4 < 4096) :
    SectionAssembler.ValidSection (psiSection tableId ext body version) where
  size := by rw [length_psiSection, sectionSize_psiSection hfits]
  table_id := by
    rw [psiSection_table_id]
    exact fun h ↦ htable (Option.some.inj h)
  crc := crc32Mpeg2_append_crc _

end PsiSection

/-! ## `section_packets` -/

/-- The header `section_packets` builds. -/
def packetHeader (pid : ℕ) (first : Bool) (cc : ℕ) : Bytes :=
  [0x47, (if first then 0x40 else 0 : UInt8) ||| UInt8.ofNat (pid >>> 8),
    UInt8.ofNat (pid &&& 0xFF), (0x10 : UInt8) ||| UInt8.ofNat (cc &&& 0x0F)]

/-- The packet of a chunk: what the chunk leaves free is filled up. -/
def chunkPacket (pid : ℕ) (first : Bool) (cc : ℕ) (payload : Bytes) : Packet where
  bytes := packetHeader pid first cc
    ++ (payload.take 184 ++ List.replicate (184 - (payload.take 184).length) 0xFF)
  length_eq := by
    have hle : (payload.take 184).length ≤ 184 := by
      rw [List.length_take]
      exact Nat.min_le_left _ _
    rw [List.length_append, List.length_append, List.length_replicate,
      Nat.add_sub_cancel' hle]
    rfl

/-- The loop of `section_packets`. -/
def packetLoop (pid : ℕ) (first : Bool) (cc : ℕ) (payload : Bytes) : List Packet :=
  if payload = [] then []
  else chunkPacket pid first cc payload :: packetLoop pid false (cc + 1) (payload.drop 184)
termination_by payload.length
decreasing_by
  rename_i h
  have hpos := List.length_pos_iff.mpr h
  rw [List.length_drop]
  omega

/-- `section_packets` -/
def sectionPackets (pid : ℕ) (sec : Bytes) (cc : ℕ := 0) : List Packet :=
  packetLoop pid true cc (0x00 :: sec)

section SectionPackets

variable {pid cc : ℕ} {first : Bool} {payload : Bytes}

theorem packetLoop_nil : packetLoop pid first cc [] = [] := by
  rw [packetLoop, if_pos rfl]

theorem packetLoop_of_ne_nil (h : payload ≠ []) : packetLoop pid first cc payload
    = chunkPacket pid first cc payload :: packetLoop pid false (cc + 1) (payload.drop 184) := by
  rw [packetLoop, if_neg h]

/-! ### The header -/

theorem byte3_fields (cc : ℕ) :
    ((0x10 : UInt8) ||| UInt8.ofNat (cc &&& 0x0F)) >>> 4 &&& 0x3 = 0x1
    ∧ (((0x10 : UInt8) ||| UInt8.ofNat (cc &&& 0x0F)) &&& 0x0F).toNat = cc % 16 := by
  have hmask : cc &&& 0x0F = cc % 16 := Nat.and_two_pow_sub_one_eq_mod cc 4
  have hlt := Nat.mod_lt cc (by decide : 0 < 16)
  rw [hmask]
  generalize cc % 16 = c at hlt
  have hall : ∀ c < 16, ((0x10 : UInt8) ||| UInt8.ofNat c) >>> 4 &&& 0x3 = 0x1
      ∧ (((0x10 : UInt8) ||| UInt8.ofNat c) &&& 0x0F).toNat = c := by decide
  exact hall c hlt

theorem afc_chunkPacket : (chunkPacket pid first cc payload).afc = 1 := (byte3_fields cc).1

theorem cc_chunkPacket : (chunkPacket pid first cc payload).cc = cc % 16 := (byte3_fields cc).2

theorem hasPayload_chunkPacket : (chunkPacket pid first cc payload).hasPayload = true := by
  rw [Packet.hasPayload, afc_chunkPacket]
  rfl

/-- The payload begins right behind the header. -/
theorem payload_chunkPacket : (chunkPacket pid first cc payload).payload
    = payload.take 184 ++ List.replicate (184 - (payload.take 184).length) 0xFF := by
  have hstart : (chunkPacket pid first cc payload).payloadStart = 4 := by
    rw [Packet.payloadStart, afc_chunkPacket]
    rfl
  rw [Packet.payload, hstart]
  rfl

/-- A PID below 256 leaves the flags of the second byte alone. -/
theorem flags_chunkPacket (hpid : pid < 256) :
    (chunkPacket pid first cc payload).tei = false
    ∧ (chunkPacket pid first cc payload).pusi = first
    ∧ (chunkPacket pid first cc payload).byte 1 = if first then 0x40 else 0 := by
  have hhigh : UInt8.ofNat (pid >>> 8) = 0 := by
    rw [Nat.shiftRight_eq_div_pow, Nat.div_eq_of_lt hpid]
    rfl
  have hbyte : (chunkPacket pid first cc payload).byte 1
      = (if first then 0x40 else 0 : UInt8) ||| UInt8.ofNat (pid >>> 8) := rfl
  rw [Packet.tei, Packet.pusi, hbyte, hhigh]
  cases first <;> decide

/-! ### The packetisation -/

/-- Every packet of one section carries a part of it. -/
def cellsOf (packets : List Packet) : List Cell := packets.map fun p ↦ ⟨p, 0, 1⟩

theorem packetised_packetLoop (hpid : pid < 256) (hne : payload ≠ []) :
    Packetised 0 payload [] (cellsOf (packetLoop pid false cc payload)) := by
  induction hn : payload.length using Nat.strong_induction_on generalizing cc payload with
  | _ n ih =>
    rw [packetLoop_of_ne_nil hne, cellsOf, List.map_cons, ← cellsOf]
    have hpos := List.length_pos_iff.mpr hne
    have hchunk : payload.take 184 ≠ [] := by
      rw [ne_eq, List.take_eq_nil_iff]
      simp [hne]
    have hrec : Packetised (if payload.drop 184 = [] then 0 + 1 else 0) (payload.drop 184) []
        (cellsOf (packetLoop pid false (cc + 1) (payload.drop 184))) := by
      by_cases hrest : payload.drop 184 = []
      · rw [if_pos hrest, hrest, packetLoop_nil]
        exact .done
      · rw [if_neg hrest]
        refine ih _ ?_ hrest rfl
        rw [List.length_drop]
        omega
    have hstuff : 184 - (payload.take 184).length = 0 ∨ payload.drop 184 = [] := by
      rw [List.drop_eq_nil_iff, List.length_take]
      omega
    have hpusi : (chunkPacket pid false cc payload).pusi = false := (flags_chunkPacket hpid).2.1
    have hcell := Packetised.continuation hpusi payload_chunkPacket hchunk hstuff hrec
    rwa [List.take_append_drop] at hcell

/-- The counter begins with `cc` and goes up by one. -/
theorem isChain_packetLoop (pid : ℕ) (first : Bool) (cc : ℕ) (payload : Bytes) :
    (∀ c ∈ ((packetLoop pid first cc payload).map Packet.cc).head?, c = cc % 16)
    ∧ ((packetLoop pid first cc payload).map Packet.cc).IsChain CcStep := by
  induction first, cc, payload using packetLoop.induct with
  | case1 => simp [packetLoop_nil]
  | case2 first cc payload hne ih =>
    obtain ⟨hhead, hchain⟩ := ih
    rw [packetLoop_of_ne_nil hne, List.map_cons, List.head?_cons, List.isChain_cons,
      cc_chunkPacket]
    refine ⟨fun c hc ↦ (Option.some.inj hc).symm, fun c hc ↦ ?_, hchain⟩
    rw [hhead c hc, CcStep]
    omega

theorem exists_chunk {p : Packet} (h : p ∈ packetLoop pid first cc payload) :
    ∃ first cc payload, p = chunkPacket pid first cc payload := by
  induction first, cc, payload using packetLoop.induct with
  | case1 =>
    rw [packetLoop_nil] at h
    exact absurd h List.not_mem_nil
  | case2 first cc payload hne ih =>
    rw [packetLoop_of_ne_nil hne] at h
    rcases List.mem_cons.mp h with rfl | h
    · exact ⟨first, cc, payload, rfl⟩
    · exact ih h

/-- **The packets of a section** are a legal packetisation of it. -/
theorem legalPacketisation_sectionPackets (hpid : pid < 256) {sec : Bytes} (hsec : sec ≠ []) :
    LegalPacketisation [sec] (cellsOf (sectionPackets pid sec cc)) where
  carries := by
    have hpusi : (chunkPacket pid true cc (0x00 :: sec)).pusi = true := (flags_chunkPacket hpid).2.1
    have hpayload : (chunkPacket pid true cc (0x00 :: sec)).payload
        = UInt8.ofNat ([] : Bytes).length :: ([] ++ (([] : List Bytes).flatten
          ++ (sec.take 183 ++ List.replicate (183 - (sec.take 183).length) 0xFF))) := by
      rw [payload_chunkPacket, List.take_succ_cons, List.length_cons, Nat.succ_sub_succ]
      rfl
    have hchunk : sec.take 183 ≠ [] := by
      rw [ne_eq, List.take_eq_nil_iff]
      simp [hsec]
    have hstuff : 183 - (sec.take 183).length = 0 ∨ sec.drop 183 = [] := by
      rw [List.drop_eq_nil_iff, List.length_take]
      omega
    have hrec : Packetised (nextNumber 0 [] + 0 + if sec.drop 183 = [] then 1 else 0)
        (sec.drop 183) [] (cellsOf (packetLoop pid false (cc + 1) (sec.drop 183))) := by
      by_cases hrest : sec.drop 183 = []
      · rw [if_pos hrest, hrest, packetLoop_nil]
        exact .done
      · rw [if_neg hrest]
        exact packetised_packetLoop hpid hrest
    have hcell := @Packetised.start 0 [] _ _ [] _ [] _ _ hpusi hpayload hchunk hstuff hrec
    rw [List.take_append_drop] at hcell
    rw [sectionPackets, packetLoop_of_ne_nil (List.cons_ne_nil _ _)]
    exact hcell
  header := by
    intro c hc
    obtain ⟨p, hp, rfl⟩ := List.mem_map.mp hc
    obtain ⟨first, cc, payload, rfl⟩ := exists_chunk hp
    exact ⟨(flags_chunkPacket hpid).1, hasPayload_chunkPacket⟩
  counter := by
    have hchain := (isChain_packetLoop pid true cc (0x00 :: sec)).2
    rwa [cellsOf, List.map_map]

end SectionPackets

end Recdyud
