import Recdyud.Ts.Packet

/-!
# Reassembly of PSI sections

`SectionAssembler.push` takes the packets of one PID and returns the sections they complete. The
buffer holds the bytes of the section under way; a discontinuity of the counter throws it away, and
`_drain` cuts finished sections off its front.

The embedding keeps every index expression fallible. The lemmas below resolve them: `drainLoop` is
described by its four ways of going on, and `push` by what it does for the header of the packet
(`push_of_*`) and for its payload (`collect_of_*`). Nothing later unfolds either function.
-/

namespace Recdyud

/-! ## CRC-32 / MPEG-2 -/

/-- One step of the table generation, on an unbounded integer. -/
def crcShift (c : ℕ) : ℕ := if c &&& 0x80000000 ≠ 0 then (c <<< 1) ^^^ 0x04C11DB7 else c <<< 1

/-- `_CRC_TABLE` -/
def crcTable : List ℕ :=
  (List.range 256).map fun i ↦ crcShift^[8] (i <<< 24) &&& 0xFFFFFFFF

/-- The loop body of `crc32_mpeg2`; the table index is in range by its mask. -/
def crcByte (crc : ℕ) (b : UInt8) : ℕ :=
  ((crc <<< 8) &&& 0xFFFFFFFF) ^^^
    crcTable.get ⟨((crc >>> 24) ^^^ b.toNat) &&& 0xFF, by
      rw [crcTable, List.length_map, List.length_range]
      exact Nat.and_lt_two_pow (n := 8) _ (by decide)⟩

/-- `crc32_mpeg2` -/
def crc32Mpeg2 (data : Bytes) : ℕ := data.foldl crcByte 0xFFFFFFFF

/-! ## The assembler -/

/-- Reassembles PSI sections carried on one PID. The `-1` of `_cc` is `none`. -/
@[ext] structure SectionAssembler where
  buf : Bytes := []
  active : Bool := false
  cc : Option ℕ := none
  deriving DecidableEq, Repr

namespace SectionAssembler

/-- The `while` loop of `_drain`. -/
def drainLoop (buf : Bytes) (out : List Bytes) : Except IndexError (Bytes × List Bytes) := do
  if 3 ≤ buf.length then
    if (← index buf 0) != 0xFF then
      let length := 3 + ((((← index buf 1) &&& 0x0F).toNat <<< 8) ||| (← index buf 2).toNat)
      if buf.length < length then
        return (buf, out)
      -- a section with a bad CRC is dropped, and the next one expected behind it
      let sec := buf.take length
      drainLoop (buf.drop length) (if crc32Mpeg2 sec = 0 then out ++ [sec] else out)
    else
      return (buf, out)
  else
    return (buf, out)
termination_by buf.length

/-- `SectionAssembler._drain` -/
def drain (self : SectionAssembler) : Except IndexError (SectionAssembler × List Bytes) := do
  let (buf, out) ← drainLoop self.buf []
  if buf.take 1 = [0xFF] then
    return ({ self with buf := [], active := false }, out)
  return ({ self with buf := buf }, out)

/-- The continuity check of `push`, for a counter that is not a duplicate: a jump throws the
partial section away. -/
def resync (self : SectionAssembler) (cc : ℕ) : SectionAssembler :=
  match self.cc with
  | none => { self with cc := some cc }
  | some prev =>
    if cc ≠ (prev + 1) &&& 0x0F then { buf := [], active := false, cc := some cc }
    else { self with cc := some cc }

/-- Offset of the payload: behind the header and the adaptation field. -/
def payloadOffset (pkt : Bytes) (afc : UInt8) : Except IndexError ℕ :=
  if afc &&& 2 != 0 then do return 5 + (← index pkt 4).toNat else return 4

/-- `if self._active: self._buf += data` and drain; an inactive assembler ignores the data. -/
def extend (self : SectionAssembler) (data : Bytes) :
    Except IndexError (SectionAssembler × List Bytes) :=
  if self.active then drain { self with buf := self.buf ++ data } else return (self, [])

/-- The part of `push` behind the continuity check. -/
def collect (self : SectionAssembler) (pkt : Bytes) (b1 afc : UInt8) :
    Except IndexError (SectionAssembler × List Bytes) := do
  let p ← payloadOffset pkt afc
  if packetSize ≤ p then
    return (self, [])
  if b1 &&& 0x40 != 0 then
    let pointer := (← index pkt p).toNat
    let p := p + 1
    -- what is still unfinished after these bytes is given up for the section that starts here
    let (self, finished) ← self.extend (slice pkt p (p + pointer))
    let (self, more) ← drain { self with buf := pkt.drop (p + pointer), active := true }
    return (self, finished ++ more)
  else
    self.extend (pkt.drop p)

/-- `SectionAssembler.push` -/
def push (self : SectionAssembler) (pkt : Bytes) :
    Except IndexError (SectionAssembler × List Bytes) := do
  let b1 ← index pkt 1
  if b1 &&& 0x80 != 0 then
    return (self, [])
  let b3 ← index pkt 3
  let afc := (b3 >>> 4) &&& 0x3
  if afc &&& 1 == 0 then
    return (self, [])
  let cc := (b3 &&& 0x0F).toNat
  if self.cc = some cc then
    return (self, [])
  (self.resync cc).collect pkt b1 afc

/-! ## Draining the buffer -/

/-- Size of the section that begins with these bytes, by its `section_length` field. -/
def sectionSize (s : Bytes) : ℕ :=
  3 + (((s.getD 1 0 &&& 0x0F).toNat <<< 8) ||| (s.getD 2 0).toNat)

theorem sectionSize_append {s : Bytes} (h : 3 ≤ s.length) (t : Bytes) :
    sectionSize (s ++ t) = sectionSize s := by
  rw [sectionSize, sectionSize, List.getD_append _ _ _ _ (by omega),
    List.getD_append _ _ _ _ (by omega)]

theorem drainLoop_of_short {buf : Bytes} (h : buf.length < 3) (out : List Bytes) :
    drainLoop buf out = .ok (buf, out) := by
  rw [drainLoop, if_neg (by omega)]
  rfl

theorem drainLoop_of_stuffing {buf : Bytes} (h : buf[0]? = some 0xFF) (out : List Bytes) :
    drainLoop buf out = .ok (buf, out) := by
  rw [drainLoop]
  split
  · rw [index_eq_ok_of_getElem? h]
    rfl
  · rfl

theorem drainLoop_of_header {buf : Bytes} (h : 3 ≤ buf.length) (hff : buf[0]? ≠ some 0xFF)
    (out : List Bytes) :
    drainLoop buf out =
      if buf.length < sectionSize buf then .ok (buf, out)
      else drainLoop (buf.drop (sectionSize buf))
        (if crc32Mpeg2 (buf.take (sectionSize buf)) = 0 then out ++ [buf.take (sectionSize buf)]
          else out) := by
  have hhead : (buf[0] != 0xFF) = true := by
    rw [bne_iff_ne]
    rintro heq
    exact hff (by rw [List.getElem?_eq_getElem (by omega), heq])
  have hsize : 3 + (((buf[1] &&& 0x0F).toNat <<< 8) ||| buf[2].toNat) = sectionSize buf := by
    rw [sectionSize, List.getD_eq_getElem _ _ (by omega), List.getD_eq_getElem _ _ (by omega)]
  rw [drainLoop, if_pos h, index_eq_ok (i := 0) (by omega), index_eq_ok (i := 1) (by omega),
    index_eq_ok (i := 2) (by omega)]
  simp only [bind, Except.bind, pure, Except.pure, hhead, if_true, hsize]

/-- A section as it is carried: the `section_length` field gives its size, it does not begin like
stuffing, and its CRC checks. -/
structure ValidSection (s : Bytes) : Prop where
  size : s.length = sectionSize s
  table_id : s[0]? ≠ some 0xFF
  crc : crc32Mpeg2 s = 0

theorem ValidSection.three_le {s : Bytes} (hs : ValidSection s) : 3 ≤ s.length := by
  rw [hs.size, sectionSize]
  exact Nat.le_add_right _ _

/-- A PAT with one program. -/
def patSection : Bytes :=
  [0x00, 0xB0, 0x0D, 0x7F, 0xE0, 0xC1, 0x00, 0x00, 0x04, 0x00, 0xE1, 0x01, 0x42, 0x3C, 0xF0, 0xA8]

theorem patSection_valid : ValidSection patSection :=
  ⟨by decide, by decide, by decide +kernel⟩

/-- A whole section is taken off the front. -/
theorem drainLoop_section {s : Bytes} (hs : ValidSection s) (r : Bytes) (out : List Bytes) :
    drainLoop (s ++ r) out = drainLoop r (out ++ [s]) := by
  have h3 := hs.three_le
  have hsize : sectionSize (s ++ r) = s.length := by rw [sectionSize_append h3, ← hs.size]
  have hhead : (s ++ r)[0]? ≠ some 0xFF := by
    rw [List.getElem?_append_left (by omega)]
    exact hs.table_id
  rw [drainLoop_of_header (by rw [List.length_append]; omega) hhead, hsize,
    if_neg (by rw [List.length_append]; omega), List.take_left, List.drop_left, hs.crc, if_pos rfl]

theorem drainLoop_sections {ss : List Bytes} (hss : ∀ s ∈ ss, ValidSection s) (r : Bytes)
    (out : List Bytes) : drainLoop (ss.flatten ++ r) out = drainLoop r (out ++ ss) := by
  induction ss generalizing out with
  | nil => simp
  | cons s ss ih =>
    rw [List.flatten_cons, List.append_assoc, drainLoop_section (hss s List.mem_cons_self),
      ih (fun t ht ↦ hss t (List.mem_cons_of_mem _ ht)), List.append_assoc, List.singleton_append]

/-- The beginning of a section stays where it is. -/
theorem drainLoop_open {u v : Bytes} (hs : ValidSection (u ++ v)) (hv : v ≠ [])
    (out : List Bytes) : drainLoop u out = .ok (u, out) := by
  rcases Nat.lt_or_ge u.length 3 with hlt | hge
  · exact drainLoop_of_short hlt out
  · -- with the length field in the buffer, the loop sees that bytes are missing
    have hhead : u[0]? ≠ some 0xFF := by
      have := hs.table_id
      rwa [List.getElem?_append_left (by omega)] at this
    have hsize := hs.size
    rw [sectionSize_append hge, List.length_append] at hsize
    have hpos := List.length_pos_iff.mpr hv
    rw [drainLoop_of_header hge hhead, if_pos (by omega)]

/-- A buffer of whole sections and an unfinished one: the sections come out, the rest is kept. -/
theorem drain_open {self : SectionAssembler} {ss : List Bytes} {u v : Bytes}
    (hss : ∀ s ∈ ss, ValidSection s) (hu : u = [] ∨ ValidSection (u ++ v) ∧ v ≠ [])
    (hbuf : self.buf = ss.flatten ++ u) : self.drain = .ok ({ self with buf := u }, ss) := by
  have hloop : drainLoop self.buf [] = .ok (u, ss) := by
    rw [hbuf, drainLoop_sections hss, List.nil_append]
    rcases hu with rfl | ⟨hs, hv⟩
    · exact drainLoop_of_short (by decide) _
    · exact drainLoop_open hs hv _
  have hhead : u.take 1 ≠ [0xFF] := by
    rcases hu with rfl | ⟨hs, -⟩
    · decide
    · rintro htake
      cases u with
      | nil => cases htake
      | cons b u =>
        rw [List.take_succ_cons, List.take_zero] at htake
        refine hs.table_id ?_
        rw [List.cons_append, List.getElem?_cons_zero, (List.cons.inj htake).1]
  rw [drain, hloop]
  simp only [bind, Except.bind, if_neg hhead]
  rfl

/-- A buffer of whole sections and stuffing: the assembler goes back to waiting for a start. -/
theorem drain_stuffed {self : SectionAssembler} {ss : List Bytes} {k : ℕ}
    (hss : ∀ s ∈ ss, ValidSection s) (hbuf : self.buf = ss.flatten ++ List.replicate (k + 1) 0xFF) :
    self.drain = .ok ({ self with buf := [], active := false }, ss) := by
  have hloop : drainLoop self.buf [] = .ok (List.replicate (k + 1) 0xFF, ss) := by
    rw [hbuf, drainLoop_sections hss, List.nil_append]
    exact drainLoop_of_stuffing rfl _
  rw [drain, hloop]
  rfl

/-! ## Pushing a packet -/

variable {self : SectionAssembler} {p : Packet}

theorem push_of_tei (h : p.tei = true) : self.push p.bytes = .ok (self, []) := by
  have hbit : (p.byte 1 &&& 0x80 != 0) = p.tei := rfl
  rw [push, p.index_bytes 1]
  simp only [bind, Except.bind, hbit, h, if_true]
  rfl

theorem push_eq (h : p.tei = false) : self.push p.bytes =
    if p.hasPayload = false ∨ self.cc = some p.cc then .ok (self, [])
    else (self.resync p.cc).collect p.bytes (p.byte 1) p.afc := by
  have hbit : (p.byte 1 &&& 0x80 != 0) = p.tei := rfl
  have hafc : (p.byte 3 >>> 4) &&& 0x3 = p.afc := rfl
  have hcc : (p.byte 3 &&& 0x0F).toNat = p.cc := rfl
  have hpay : (p.afc &&& 1 == 0) = !p.hasPayload := by rw [Packet.hasPayload, bne, Bool.not_not]
  rw [push, p.index_bytes 1, p.index_bytes 3]
  simp only [bind, Except.bind, hbit, h, hafc, hpay, hcc, Bool.false_eq_true, if_false]
  cases p.hasPayload with
  | false => rfl
  | true => by_cases hdup : self.cc = some p.cc <;> simp [hdup]; rfl

/-- A packet without payload changes nothing. -/
theorem push_of_noPayload (h : p.hasPayload = false) : self.push p.bytes = .ok (self, []) := by
  cases htei : p.tei with
  | true => exact push_of_tei htei
  | false => rw [push_eq htei, if_pos (.inl h)]

/-- A packet that repeats the counter of the last one changes nothing. -/
theorem push_of_duplicate (h : self.cc = some p.cc) : self.push p.bytes = .ok (self, []) := by
  cases htei : p.tei with
  | true => exact push_of_tei htei
  | false => rw [push_eq htei, if_pos (.inr h)]

theorem push_of_payload (htei : p.tei = false) (hpay : p.hasPayload = true)
    (hcc : self.cc ≠ some p.cc) :
    self.push p.bytes = (self.resync p.cc).collect p.bytes (p.byte 1) p.afc := by
  rw [push_eq htei, if_neg (by simp [hpay, hcc])]

theorem extend_of_active (h : self.active = true) (data : Bytes) :
    self.extend data = drain { self with buf := self.buf ++ data } := by
  rw [extend, if_pos h]

theorem extend_of_inactive (h : self.active = false) (data : Bytes) :
    self.extend data = .ok (self, []) := by
  rw [extend, h, if_neg Bool.false_ne_true]
  rfl

theorem payloadOffset_eq (p : Packet) : payloadOffset p.bytes p.afc = .ok p.payloadStart := by
  rw [payloadOffset, p.index_bytes 4, Packet.payloadStart]
  split <;> rfl

theorem payloadStart_lt (h : p.payload ≠ []) : p.payloadStart < packetSize := by
  rw [Packet.payload, ne_eq, List.drop_eq_nil_iff, p.length_eq] at h
  omega

/-- Nothing but an adaptation field. -/
theorem collect_of_idle (h : p.payload = []) :
    self.collect p.bytes (p.byte 1) p.afc = .ok (self, []) := by
  rw [Packet.payload, List.drop_eq_nil_iff, p.length_eq] at h
  rw [collect, payloadOffset_eq]
  simp only [bind, Except.bind, if_pos h]
  rfl

/-- The payload goes on where the last one ended. -/
theorem collect_of_continuation (hpusi : p.pusi = false) (h : p.payload ≠ []) :
    self.collect p.bytes (p.byte 1) p.afc = self.extend p.payload := by
  have hbit : (p.byte 1 &&& 0x40 != 0) = p.pusi := rfl
  have hlt := payloadStart_lt h
  rw [collect, payloadOffset_eq]
  simp only [bind, Except.bind, if_neg (Nat.not_le.mpr hlt), hbit, hpusi, Bool.false_eq_true,
    if_false]
  rfl

/-- A section starts `pointer` bytes into the payload. -/
theorem collect_of_start {pointer : UInt8} {body : Bytes} (hpusi : p.pusi = true)
    (h : p.payload = pointer :: body) :
    self.collect p.bytes (p.byte 1) p.afc = do
      let (self, finished) ← self.extend (body.take pointer.toNat)
      let (self, more) ← drain { self with buf := body.drop pointer.toNat, active := true }
      return (self, finished ++ more) := by
  have hbit : (p.byte 1 &&& 0x40 != 0) = p.pusi := rfl
  have hlt := payloadStart_lt (p := p) (by rw [h]; exact List.cons_ne_nil _ _)
  have hbody : p.bytes.drop (p.payloadStart + 1) = body := by
    rw [← List.drop_drop, ← Packet.payload, h, List.drop_succ_cons, List.drop_zero]
  have hpointer : index p.bytes p.payloadStart = .ok pointer := by
    refine index_eq_ok_of_getElem? ?_
    have : p.payload[0]? = some pointer := by rw [h]; rfl
    rwa [Packet.payload, List.getElem?_drop, Nat.add_zero] at this
  rw [collect, payloadOffset_eq]
  simp only [bind, Except.bind, if_neg (Nat.not_le.mpr hlt), hbit, hpusi, if_true, hpointer,
    slice_add, hbody, ← List.drop_drop]

end SectionAssembler

end Recdyud
