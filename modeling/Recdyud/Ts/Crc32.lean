import Recdyud.Lib.Crc
import Recdyud.Ts.TableBuild

/-!
# The CRC of a section, bit by bit

The table of `crc32_mpeg2` holds what eight shifts make of a byte at the top of the register, so one
step of its loop is eight steps of the bitwise register (`crcByte_toNat`), and `crc32_mpeg2` is a
run over the bits of the data. The laws of the register then speak about sections: `_drain` takes
exactly those that end in the CRC of the rest, and a burst of 32 bits in a good section is noticed.
-/

namespace Recdyud

/-- The polynomial of `_CRC_TABLE`. -/
def crcPoly : BitVec 32 := 0x04C11DB7#32

/-- The bits of a byte in the order in which they are carried. -/
def byteBits (b : UInt8) : List Bool := (List.range 8).map b.toBitVec.getMsbD

/-- The bits of a byte string. -/
def bitsOf (s : Bytes) : List Bool := s.flatMap byteBits

@[simp] theorem length_byteBits (b : UInt8) : (byteBits b).length = 8 := by
  simp [byteBits]

theorem length_bitsOf (s : Bytes) : (bitsOf s).length = 8 * s.length := by
  simp [bitsOf, List.length_flatMap, Nat.mul_comm]

theorem bitsOf_append (s t : Bytes) : bitsOf (s ++ t) = bitsOf s ++ bitsOf t :=
  List.flatMap_append

theorem bitsOf_cons (b : UInt8) (s : Bytes) : bitsOf (b :: s) = byteBits b ++ bitsOf s :=
  List.flatMap_cons

theorem byteBits_injective : Function.Injective byteBits := by
  intro a b h
  refine UInt8.toBitVec_inj.mp (BitVec.eq_of_getMsbD_eq fun i hi ↦ ?_)
  have hbit := congrArg (fun l ↦ l[i]?) h
  simpa [byteBits, List.getElem?_range hi] using hbit

theorem bitsOf_injective : Function.Injective bitsOf := by
  intro s
  induction s with
  | nil =>
    intro t h
    cases t with
    | nil => rfl
    | cons b t => simp [bitsOf, byteBits] at h
  | cons a s ih =>
    intro t h
    cases t with
    | nil => simp [bitsOf, byteBits] at h
    | cons b t =>
      rw [bitsOf_cons, bitsOf_cons] at h
      obtain ⟨hhead, htail⟩ := List.append_inj h (by simp)
      rw [byteBits_injective hhead, ih htail]

/-! ## The table -/

theorem ofNat_crcShift (c : ℕ) :
    BitVec.ofNat 32 (crcShift c) = Crc.step crcPoly (BitVec.ofNat 32 c) := by
  have hmsb : (BitVec.ofNat 32 c).msb = c.testBit 31 := by
    rw [BitVec.msb_eq_getLsbD_last, BitVec.getLsbD_ofNat]
    rfl
  have hand : c &&& 0x80000000 = (c.testBit 31).toNat * 2 ^ 31 := Nat.and_two_pow c 31
  have hshift : BitVec.ofNat 32 (c <<< 1) = BitVec.ofNat 32 c <<< 1 := by
    refine BitVec.eq_of_toNat_eq ?_
    simp [Nat.shiftLeft_eq]
  rw [crcShift, Crc.step, hmsb, hand]
  cases c.testBit 31 with
  | false => exact hshift
  | true => exact (BitVec.ofNat_xor ..).trans (congrArg (· ^^^ crcPoly) hshift)

theorem ofNat_iterate_crcShift (n c : ℕ) :
    BitVec.ofNat 32 (crcShift^[n] c) = (Crc.step crcPoly)^[n] (BitVec.ofNat 32 c) := by
  induction n generalizing c with
  | zero => rfl
  | succ n ih => rw [Function.iterate_succ_apply, ih, ofNat_crcShift, Function.iterate_succ_apply]

/-- An entry of the table: eight shifts of the byte at the top of the register. -/
theorem crcTable_eq {i : ℕ} (h : i < crcTable.length) :
    crcTable[i] = ((Crc.step crcPoly)^[8] (BitVec.ofNat 32 (i <<< 24))).toNat := by
  simp only [crcTable, List.getElem_map, List.getElem_range]
  rw [← ofNat_iterate_crcShift, BitVec.toNat_ofNat]
  exact Nat.and_two_pow_sub_one_eq_mod _ 32

/-- The bits of a byte, as a word, are the byte at the top. -/
theorem word_byteBits (b : UInt8) : (Crc.word (byteBits b) : BitVec 32)
    = BitVec.ofNat 32 (b.toNat <<< 24) := by
  refine BitVec.eq_of_getMsbD_eq fun i hi ↦ ?_
  rw [Crc.getMsbD_word, BitVec.getMsbD, BitVec.getLsbD_ofNat, Nat.testBit_shiftLeft]
  rcases Nat.lt_or_ge i 8 with hlt | hge
  · have hbit : (byteBits b).getD i false = b.toNat.testBit (7 - i) := by
      simp [byteBits, hlt, BitVec.getMsbD, BitVec.getLsbD]
    rw [hbit, show 32 - 1 - i - 24 = 7 - i by omega]
    have h1 : 32 - 1 - i < 32 := by omega
    have h2 : 24 ≤ 32 - 1 - i := by omega
    simp [hi, h1, h2]
  · rw [List.getD_eq_default _ _ (by rw [length_byteBits]; exact hge)]
    have h2 : ¬24 ≤ 32 - 1 - i := by omega
    simp [h2]

/-- The register under a byte: what meets at the top, and the rest. -/
theorem xor_word_byteBits (c : BitVec 32) (b : UInt8) :
    c ^^^ Crc.word (byteBits b)
      = BitVec.ofNat 32 ((((c.toNat >>> 24) ^^^ b.toNat) &&& 0xFF) <<< 24)
        ^^^ (c &&& 0xFFFFFF#32) := by
  refine BitVec.eq_of_getLsbD_eq fun i hi ↦ ?_
  rw [word_byteBits]
  have hmask : (0xFF : ℕ).testBit (i - 24) = decide (i - 24 < 8) :=
    Nat.testBit_two_pow_sub_one 8 _
  have hlow : (0xFFFFFF : ℕ).testBit i = decide (i < 24) := Nat.testBit_two_pow_sub_one 24 i
  simp only [BitVec.getLsbD_xor, BitVec.getLsbD_ofNat, BitVec.getLsbD_and, Nat.testBit_shiftLeft,
    Nat.testBit_and, Nat.testBit_xor, Nat.testBit_shiftRight, hmask, hlow, BitVec.testBit_toNat]
  rcases Nat.lt_or_ge i 24 with hlt | hge
  · have hnot : ¬24 ≤ i := by omega
    simp [hi, hlt, hnot]
  · have htop : i - 24 < 8 := by omega
    simp [hi, hge, htop, Nat.add_sub_cancel' hge, Nat.not_lt.mpr hge]

/-- **One step of the loop is eight steps of the register.** -/
theorem crcByte_toNat (c : BitVec 32) (b : UInt8) :
    crcByte c.toNat b = (Crc.run crcPoly c (byteBits b)).toNat := by
  have hlow : (Crc.step crcPoly)^[8] (c &&& 0xFFFFFF#32) = c <<< 8 := by
    have hmask (i : ℕ) : (0xFFFFFF : ℕ).testBit i = decide (i < 24) :=
      Nat.testBit_two_pow_sub_one 24 i
    rw [Crc.iterate_step_of_clear]
    · refine BitVec.eq_of_getLsbD_eq fun i hi ↦ ?_
      simp only [BitVec.getLsbD_shiftLeft, BitVec.getLsbD_and, BitVec.getLsbD_ofNat, hmask]
      have h1 : i - 8 < 32 := by omega
      have h2 : i - 8 < 24 := by omega
      simp [h1, h2]
    · intro i hi
      rw [BitVec.getMsbD, BitVec.getLsbD_and, BitVec.getLsbD_ofNat, hmask]
      have h1 : ¬32 - 1 - i < 24 := by omega
      simp [h1]
  have hmove : (c.toNat <<< 8) &&& 0xFFFFFFFF = (c <<< 8).toNat := by
    rw [BitVec.toNat_shiftLeft]
    exact Nat.and_two_pow_sub_one_eq_mod _ 32
  rw [Crc.run_eq_iterate_word crcPoly c (by rw [length_byteBits]; decide), length_byteBits,
    xor_word_byteBits, Crc.iterate_step_xor, hlow, BitVec.toNat_xor, crcByte, hmove,
    List.get_eq_getElem, crcTable_eq, Nat.xor_comm]

theorem crc32Mpeg2_eq (data : Bytes) :
    crc32Mpeg2 data = (Crc.run crcPoly 0xFFFFFFFF#32 (bitsOf data)).toNat := by
  have hfold (c : BitVec 32) :
      data.foldl crcByte c.toNat = (Crc.run crcPoly c (bitsOf data)).toNat := by
    induction data generalizing c with
    | nil => rfl
    | cons b data ih =>
      rw [List.foldl_cons, crcByte_toNat, ih, bitsOf_cons, Crc.run_append]
  exact hfold 0xFFFFFFFF#32

/-! ## The bit-serial register

The CRC as it is specified: 32 bits of register, the top bit of each byte first, all ones at the
start, and the register as it stands at the end.
-/

/-- One bit: what leaves the register at the top meets it, and decides about the polynomial. -/
def serialBit (c : BitVec 32) (b : Bool) : BitVec 32 :=
  if c.msb ^^ b then (c <<< 1) ^^^ 0x04C11DB7#32 else c <<< 1

/-- One byte, from bit 7 down. -/
def serialByte (c : BitVec 32) (b : UInt8) : BitVec 32 :=
  [7, 6, 5, 4, 3, 2, 1, 0].foldl (fun c i ↦ serialBit c (b.toBitVec.getLsbD i)) c

/-- The bit-serial CRC of a byte string. -/
def crcSerial (data : Bytes) : BitVec 32 := data.foldl serialByte 0xFFFFFFFF#32

theorem serialByte_eq (c : BitVec 32) (b : UInt8) :
    serialByte c b = Crc.run crcPoly c (byteBits b) := by
  have hfeed : Crc.feed crcPoly = serialBit := funext₂ fun c b ↦ Crc.feed_eq crcPoly c b
  rw [Crc.run, hfeed]
  rfl

theorem crcSerial_eq (data : Bytes) :
    crcSerial data = Crc.run crcPoly 0xFFFFFFFF#32 (bitsOf data) := by
  rw [crcSerial]
  generalize 0xFFFFFFFF#32 = c
  induction data generalizing c with
  | nil => rfl
  | cons b data ih => rw [List.foldl_cons, ih, serialByte_eq, bitsOf_cons, Crc.run_append]

/-- **`crc32_mpeg2` refines the bit-serial CRC**: each entry of the table is eight steps of the
32-bit register, although its integers grow unmasked, and on every byte string the two agree. -/
theorem crc32Mpeg2_refines_serial (data : Bytes) :
    (∀ i < 256, crcTable[i]? = some ((serialBit · false)^[8] (BitVec.ofNat 32 (i <<< 24))).toNat)
    ∧ crc32Mpeg2 data = (crcSerial data).toNat := by
  constructor
  · intro i hi
    have hlt : i < crcTable.length := by simpa [crcTable] using hi
    have hstep : (serialBit · false) = Crc.step crcPoly :=
      funext fun c ↦ by simp only [serialBit, Bool.xor_false, Crc.step, crcPoly]
    rw [List.getElem?_eq_getElem hlt, crcTable_eq hlt, hstep]
  · rw [crc32Mpeg2_eq, crcSerial_eq]

/-! ## The residue -/

theorem crcPoly_odd : crcPoly.getLsbD 0 = true := by decide

/-- What the register holds behind a message. -/
def crcRegister (m : Bytes) : BitVec 32 := Crc.run crcPoly 0xFFFFFFFF#32 (bitsOf m)

theorem crc32Mpeg2_append_eq_zero_iff_word {m t : Bytes} (ht : t.length ≤ 4) :
    crc32Mpeg2 (m ++ t) = 0 ↔ crcRegister m = Crc.word (bitsOf t) := by
  have hbits : (bitsOf t).length ≤ 32 := by rw [length_bitsOf]; omega
  rw [crc32Mpeg2_eq, bitsOf_append, Crc.run_append, ← crcRegister,
    ← Crc.run_eq_zero_iff crcPoly_odd hbits]
  exact BitVec.toNat_inj (y := 0#32)

/-- Four bytes bring the register to zero exactly when they are the CRC. -/
theorem crc32Mpeg2_append_eq_zero_iff {m t : Bytes} (ht : t.length = 4) :
    crc32Mpeg2 (m ++ t) = 0 ↔ t = toBytes (crc32Mpeg2 m) 4 := by
  have hlen : (toBytes (crc32Mpeg2 m) 4).length = 4 := length_toBytes _ _
  have hown : crcRegister m = Crc.word (bitsOf (toBytes (crc32Mpeg2 m) 4)) :=
    (crc32Mpeg2_append_eq_zero_iff_word hlen.le).mp (crc32Mpeg2_append_crc m)
  rw [crc32Mpeg2_append_eq_zero_iff_word ht.le, hown]
  constructor
  · intro hword
    have hsame : (bitsOf (toBytes (crc32Mpeg2 m) 4)).length = (bitsOf t).length := by
      rw [length_bitsOf, length_bitsOf, hlen, ht]
    refine (bitsOf_injective (Crc.word_injective (w := 32) hsame ?_ hword)).symm
    rw [length_bitsOf, hlen]
  · rintro rfl
    rfl

/-- Fewer than four bytes never check: the register starts with its lowest bit set. -/
theorem crc32Mpeg2_ne_zero_of_short {s : Bytes} (h : s.length < 4) : crc32Mpeg2 s ≠ 0 := by
  intro hzero
  have hword := (crc32Mpeg2_append_eq_zero_iff_word (m := []) h.le).mp hzero
  have hbit := congrArg (fun x ↦ BitVec.getMsbD x 31) hword
  rw [Crc.getMsbD_word, List.getD_eq_default _ _ (by rw [length_bitsOf]; omega)] at hbit
  exact absurd hbit (by decide)

/-- The only four bytes that check. -/
theorem crc32Mpeg2_eq_zero_iff_of_four {s : Bytes} (h : s.length = 4) :
    crc32Mpeg2 s = 0 ↔ s = [0xFF, 0xFF, 0xFF, 0xFF] :=
  crc32Mpeg2_append_eq_zero_iff (m := []) h

/-- The last four bytes are the CRC of the rest. -/
def EndsInCrc (s : Bytes) : Prop :=
  s.drop (s.length - 4) = toBytes (crc32Mpeg2 (s.take (s.length - 4))) 4

instance : DecidablePred EndsInCrc := fun s ↦
  inferInstanceAs (Decidable (s.drop (s.length - 4) = _))

theorem crc32Mpeg2_eq_zero_iff (s : Bytes) : crc32Mpeg2 s = 0 ↔ EndsInCrc s := by
  rcases Nat.lt_or_ge s.length 4 with hlt | hge
  · constructor
    · intro hzero
      exact absurd hzero (crc32Mpeg2_ne_zero_of_short hlt)
    · intro hlast
      have := congrArg List.length hlast
      rw [List.length_drop, length_toBytes] at this
      omega
  · rw [EndsInCrc, ← crc32Mpeg2_append_eq_zero_iff (by rw [List.length_drop]; omega),
      List.take_append_drop]

/-! ## The check of `_drain` -/

namespace SectionAssembler

/-- A whole section at the front of the buffer comes out if it checks, and goes either way. -/
theorem drainLoop_of_whole {buf : Bytes} (h : 3 ≤ buf.length) (hff : buf[0]? ≠ some 0xFF)
    (hwhole : sectionSize buf ≤ buf.length) (out : List Bytes) :
    drainLoop buf out = drainLoop (buf.drop (sectionSize buf))
      (if crc32Mpeg2 (buf.take (sectionSize buf)) = 0 then out ++ [buf.take (sectionSize buf)]
        else out) := by
  rw [drainLoop_of_header h hff, if_neg (by omega)]

/-- **The residue law**: what follows a message brings the CRC to zero exactly when it is the CRC of
the message, and so `_drain` takes exactly the sections that end in the CRC of the rest. -/
theorem crc_residue_law :
    (∀ m t : Bytes, t.length = 4 →
      (crc32Mpeg2 (m ++ t) = 0 ↔ t = toBytes (crc32Mpeg2 m) 4))
    ∧ ∀ (buf : Bytes) (out : List Bytes), 3 ≤ buf.length → buf[0]? ≠ some 0xFF →
      sectionSize buf ≤ buf.length →
      drainLoop buf out = drainLoop (buf.drop (sectionSize buf))
        (if EndsInCrc (buf.take (sectionSize buf)) then out ++ [buf.take (sectionSize buf)]
          else out) := by
  constructor
  · intro m t ht
    exact crc32Mpeg2_append_eq_zero_iff ht
  · intro buf out h hff hwhole
    rw [drainLoop_of_whole h hff hwhole]
    simp only [crc32Mpeg2_eq_zero_iff]

theorem crc_residue_law_patSection :
    patSection.drop 12 = toBytes (crc32Mpeg2 (patSection.take 12)) 4
    ∧ drainLoop patSection [] = drainLoop [] [patSection] :=
  ⟨(crc_residue_law.1 (patSection.take 12) (patSection.drop 12) rfl).mp patSection_valid.crc,
    (crc_residue_law.2 patSection [] (by decide) (by decide) (by decide)).trans
      (congrArg _ (if_pos ((crc32Mpeg2_eq_zero_iff patSection).mp patSection_valid.crc)))⟩

/-- **Burst errors are noticed**: a string that differs from one that checks, but only inside a
window of 32 bits, does not check, and as a section `_drain` passes over it. -/
theorem crc32Mpeg2_ne_zero_of_burst {s s' : Bytes} {k : ℕ} (hs : crc32Mpeg2 s = 0)
    (hlen : s'.length = s.length) (hne : s' ≠ s)
    (hburst : ∀ i, i < k ∨ k + 32 ≤ i → (bitsOf s')[i]? = (bitsOf s)[i]?) :
    crc32Mpeg2 s' ≠ 0
    ∧ ∀ (buf : Bytes) (out : List Bytes), 3 ≤ buf.length → buf[0]? ≠ some 0xFF →
      sectionSize buf ≤ buf.length → buf.take (sectionSize buf) = s' →
      drainLoop buf out = drainLoop (buf.drop (sectionSize buf)) out := by
  have hcrc : crc32Mpeg2 s' ≠ 0 := by
    intro hs'
    have hbits : (bitsOf s').length = (bitsOf s).length := by
      rw [length_bitsOf, length_bitsOf, hlen]
    refine Crc.run_ne_of_burst crcPoly_odd 0xFFFFFFFF#32 hbits (bitsOf_injective.ne hne) hburst ?_
    rw [crc32Mpeg2_eq] at hs hs'
    exact BitVec.toNat_inj.mp (hs'.trans hs.symm)
  refine ⟨hcrc, fun buf out h hff hwhole hsec ↦ ?_⟩
  rw [drainLoop_of_whole h hff hwhole, hsec, if_neg hcrc]

/-- The 32 bits from bit 69 of `patSection` on, all of them wrong. -/
theorem crc32Mpeg2_ne_zero_of_burst_patSection :
    crc32Mpeg2 (patSection.take 8 ++ [0x03, 0xFF, 0x1E, 0xFE, 0xBA] ++ patSection.drop 13) ≠ 0 := by
  set garbled := patSection.take 8 ++ [0x03, 0xFF, 0x1E, 0xFE, 0xBA] ++ patSection.drop 13
  have hlen : garbled.length = patSection.length := rfl
  have hbits : ∀ i < 128, i < 69 ∨ 69 + 32 ≤ i →
      (bitsOf garbled)[i]? = (bitsOf patSection)[i]? := by
    decide +kernel
  refine (crc32Mpeg2_ne_zero_of_burst (k := 69) patSection_valid.crc hlen (by decide)
    fun i hi ↦ ?_).1
  rcases Nat.lt_or_ge i 128 with hlt | hge
  · exact hbits i hlt hi
  · rw [List.getElem?_eq_none (by rw [length_bitsOf]; exact hge),
      List.getElem?_eq_none (by rw [length_bitsOf]; exact hge)]

end SectionAssembler

end Recdyud
