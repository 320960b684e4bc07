import Recdyud.Ts.Sync

/-!
# Packets of a packet-aligned buffer

The analyzer, the null filter and the table collector all walk a buffer of whole packets with
`for off in range(0, n * PACKET_SIZE, PACKET_SIZE)` and index it at `off + 1`, `off + 2`, … . Their
embeddings keep that loop, with fallible index expressions; `foldlM_offsets` is the one place where
it is turned into a walk over a list of `Packet`s, whose length is part of the type so that header
bytes can be read without a bound check.

The header fields at the end follow the bit layout the source masks out.
-/

namespace Recdyud

def nullPid : ℕ := 0x1FFF

/-- A TS packet: a byte string of exactly `PACKET_SIZE` bytes. -/
@[ext] structure Packet where
  bytes : Bytes
  length_eq : bytes.length = packetSize
  deriving DecidableEq

/-! ## Walking a buffer -/

/-- The whole packets of a buffer, in order. A trailing partial packet is left out. -/
def packetsOf (data : Bytes) : List Packet :=
  if h : packetSize ≤ data.length then
    ⟨data.take packetSize, by rw [List.length_take, Nat.min_eq_left h]⟩
      :: packetsOf (data.drop packetSize)
  else
    []
termination_by data.length
decreasing_by
  rw [List.length_drop]
  simp only [packetSize] at h ⊢
  omega

/-- A buffer of whole packets. -/
def Aligned (data : Bytes) : Prop := packetSize ∣ data.length

theorem aligned_nil : Aligned [] := dvd_zero _

theorem Aligned.append {a b : Bytes} (ha : Aligned a) (hb : Aligned b) : Aligned (a ++ b) := by
  rw [Aligned, List.length_append]
  exact dvd_add ha hb

theorem packetsOf_of_lt {data : Bytes} (h : data.length < packetSize) : packetsOf data = [] := by
  rw [packetsOf, dif_neg (by omega)]

theorem packetsOf_of_le {data : Bytes} (h : packetSize ≤ data.length) :
    packetsOf data = ⟨data.take packetSize, by rw [List.length_take, Nat.min_eq_left h]⟩
      :: packetsOf (data.drop packetSize) := by
  rw [packetsOf, dif_pos h]

theorem length_packetsOf (data : Bytes) : (packetsOf data).length = data.length / packetSize := by
  induction data using packetsOf.induct with
  | case1 data h ih =>
    rw [packetsOf_of_le h, List.length_cons, ih, List.length_drop]
    simp only [packetSize] at h ⊢
    omega
  | case2 data h =>
    rw [packetsOf_of_lt (by omega), List.length_nil]
    simp only [packetSize] at h ⊢
    omega

/-- Cutting at a packet boundary splits the list of packets. -/
theorem packetsOf_append {a : Bytes} (ha : Aligned a) (b : Bytes) :
    packetsOf (a ++ b) = packetsOf a ++ packetsOf b := by
  obtain ⟨n, hn⟩ := ha
  induction n generalizing a with
  | zero =>
    obtain rfl : a = [] := List.length_eq_zero_iff.mp (by rw [hn, Nat.mul_zero])
    have hnil : packetsOf [] = [] := packetsOf_of_lt (by decide)
    rw [hnil, List.nil_append, List.nil_append]
  | succ n ih =>
    rw [Nat.mul_succ] at hn
    have hle : packetSize ≤ a.length := by omega
    have hle' : packetSize ≤ (a ++ b).length := by rw [List.length_append]; omega
    have hdrop : (a.drop packetSize).length = packetSize * n := by rw [List.length_drop]; omega
    rw [packetsOf_of_le hle', packetsOf_of_le hle, List.cons_append]
    congr 1
    · exact Packet.ext (List.take_append_of_le_length hle)
    · rw [List.drop_append_of_le_length hle, ih hdrop]

@[simp] theorem packetsOf_bytes (p : Packet) : packetsOf p.bytes = [p] := by
  have hle : packetSize ≤ p.bytes.length := p.length_eq.ge
  rw [packetsOf_of_le hle, packetsOf_of_lt (by simp [p.length_eq, packetSize])]
  exact congrArg (· :: []) (Packet.ext (List.take_of_length_le p.length_eq.le))

theorem Packet.aligned_bytes (p : Packet) : Aligned p.bytes :=
  ⟨1, by rw [p.length_eq, Nat.mul_one]⟩

/-- A list of packets, concatenated, cuts back into itself. -/
theorem packetsOf_flatMap_bytes (ps : List Packet) : packetsOf (ps.flatMap Packet.bytes) = ps := by
  induction ps with
  | nil => exact packetsOf_of_lt (by decide)
  | cons p ps ih =>
    rw [List.flatMap_cons, packetsOf_append p.aligned_bytes, packetsOf_bytes, ih]
    rfl

/-- A buffer of whole packets is the concatenation of its packets. -/
theorem flatMap_bytes_packetsOf {data : Bytes} (h : Aligned data) :
    (packetsOf data).flatMap Packet.bytes = data := by
  obtain ⟨n, hn⟩ := h
  induction n generalizing data with
  | zero =>
    obtain rfl : data = [] := List.length_eq_zero_iff.mp (by rw [hn, Nat.mul_zero])
    rw [packetsOf_of_lt (by decide)]
    rfl
  | succ n ih =>
    rw [Nat.mul_succ] at hn
    have hdrop : (data.drop packetSize).length = packetSize * n := by rw [List.length_drop]; omega
    rw [packetsOf_of_le (by omega), List.flatMap_cons, ih hdrop, List.take_append_drop]

theorem length_flatMap_bytes (ps : List Packet) :
    (ps.flatMap Packet.bytes).length = packetSize * ps.length := by
  induction ps with
  | nil => rfl
  | cons p ps ih =>
    rw [List.flatMap_cons, List.length_append, ih, p.length_eq, List.length_cons, Nat.mul_succ,
      Nat.add_comm]

/-- `range(0, n * PACKET_SIZE, PACKET_SIZE)` for the `n` whole packets of the buffer -/
def offsets (data : Bytes) : List ℕ := pyRange 0 (data.length / packetSize * packetSize) packetSize

theorem offsets_eq_map (data : Bytes) :
    offsets data = (List.range (data.length / packetSize)).map (packetSize * ·) := by
  have hdiv : (data.length / packetSize * packetSize + packetSize - 1) / packetSize
      = data.length / packetSize := by
    simp only [packetSize]
    omega
  rw [offsets, pyRange_zero, hdiv]

/-- The packet loop from packet number `k` on, when `n` are left. -/
theorem foldlM_offsets_from {m : Type → Type*} [Monad m] {σ : Type} {data : Bytes}
    {f : σ → ℕ → m σ} {g : σ → Packet → m σ}
    (h : ∀ s off (p : Packet), off + packetSize ≤ data.length →
      p.bytes = slice data off (off + packetSize) → f s off = g s p) (n : ℕ) :
    ∀ k, (data.drop (packetSize * k)).length / packetSize = n → ∀ s,
      ((List.range' k n).map (packetSize * ·)).foldlM f s
        = (packetsOf (data.drop (packetSize * k))).foldlM g s := by
  induction n with
  | zero =>
    intro k hk s
    rw [packetsOf_of_lt (by simp only [packetSize] at hk ⊢; omega)]
    rfl
  | succ n ih =>
    intro k hk s
    have hlen : packetSize ≤ (data.drop (packetSize * k)).length := by
      simp only [packetSize] at hk ⊢
      omega
    have hnext : (data.drop (packetSize * (k + 1))).length / packetSize = n := by
      simp only [List.length_drop, packetSize] at hk ⊢
      omega
    have hstep : ∀ s, f s (packetSize * k)
        = g s ⟨(data.drop (packetSize * k)).take packetSize, by
            rw [List.length_take, Nat.min_eq_left hlen]⟩ := by
      intro s
      refine h s _ _ ?_ (slice_add _ _ _).symm
      rw [List.length_drop] at hlen
      simp only [packetSize] at hlen ⊢
      omega
    rw [packetsOf_of_le hlen, List.range'_succ, List.map_cons, List.foldlM_cons,
      List.foldlM_cons, hstep, List.drop_drop, ← Nat.mul_succ]
    exact bind_congr fun s' ↦ ih (k + 1) hnext s'

/-- **The packet loop.** Walking the offsets of a buffer is walking its packets, for a body that
depends on the packet at the offset only. -/
theorem foldlM_offsets {m : Type → Type*} [Monad m] {σ : Type} {data : Bytes}
    {f : σ → ℕ → m σ} {g : σ → Packet → m σ}
    (h : ∀ s off (p : Packet), off + packetSize ≤ data.length →
      p.bytes = slice data off (off + packetSize) → f s off = g s p) (s : σ) :
    (offsets data).foldlM f s = (packetsOf data).foldlM g s := by
  rw [offsets_eq_map, List.range_eq_range']
  simpa using foldlM_offsets_from h _ 0 rfl s

/-! ## Header fields -/

namespace Packet

variable (p : Packet)

theorem one_lt_packetSize : 1 < packetSize := by decide

theorem two_lt_packetSize : 2 < packetSize := by decide

theorem three_lt_packetSize : 3 < packetSize := by decide

/-- The byte at offset `i` of the packet. -/
def byte (i : ℕ) (h : i < packetSize := by norm_num [packetSize]) : UInt8 :=
  p.bytes.get ⟨i, p.length_eq.symm ▸ h⟩

theorem getElem?_bytes {i : ℕ} (h : i < packetSize) : p.bytes[i]? = some (p.byte i h) :=
  List.getElem?_eq_getElem (p.length_eq.symm ▸ h)

theorem index_bytes (i : ℕ) (h : i < packetSize := by norm_num [packetSize]) :
    index p.bytes i = .ok (p.byte i h) :=
  index_eq_ok_of_getElem? (p.getElem?_bytes h)

theorem index_of_slice {data : Bytes} {off : ℕ} {p : Packet}
    (hp : p.bytes = slice data off (off + packetSize)) (i : ℕ)
    (h : i < packetSize := by norm_num [packetSize]) :
    index data (off + i) = .ok (p.byte i h) := by
  have hget := p.getElem?_bytes h
  rw [hp, slice_add, List.getElem?_take_of_lt h, List.getElem?_drop] at hget
  exact index_eq_ok_of_getElem? hget

/-- transport_error_indicator -/
def tei : Bool := p.byte 1 &&& 0x80 != 0

/-- payload_unit_start_indicator -/
def pusi : Bool := p.byte 1 &&& 0x40 != 0

theorem pid_lt (b1 b2 : UInt8) : ((b1 &&& 0x1F).toNat <<< 8) ||| b2.toNat < 8192 := by
  have h1 : (b1 &&& 0x1F).toNat < 2 ^ 5 := by
    rw [UInt8.toNat_and]
    exact Nat.and_lt_two_pow _ (by decide)
  have h2 : b2.toNat < 2 ^ 13 := b2.toNat_lt.trans (by decide)
  refine Nat.or_lt_two_pow (n := 13) ?_ h2
  rw [Nat.shiftLeft_eq]
  omega

/-- The 13-bit packet identifier. -/
def pid : Fin 8192 := ⟨((p.byte 1 &&& 0x1F).toNat <<< 8) ||| (p.byte 2).toNat, pid_lt _ _⟩

/-- transport_scrambling_control is not zero -/
def scrambled : Bool := p.byte 3 &&& 0xC0 != 0

/-- adaptation_field_control -/
def afc : UInt8 := (p.byte 3 >>> 4) &&& 0x3

/-- The payload bit of adaptation_field_control. -/
def hasPayload : Bool := p.afc &&& 1 != 0

/-- continuity_counter -/
def cc : ℕ := (p.byte 3 &&& 0x0F).toNat

/-- The payload bit, where it stands in the header. -/
theorem hasPayload_eq : p.hasPayload = (p.byte 3 &&& 0x10 != 0) := by
  have hbits : ∀ b : BitVec 8, (((UInt8.ofBitVec b >>> 4) &&& 0x3) &&& 1 != 0)
      = (UInt8.ofBitVec b &&& 0x10 != 0) := by decide +kernel
  exact hbits (p.byte 3).toBitVec

theorem cc_lt : p.cc < 16 := by
  rw [cc, UInt8.toNat_and]
  exact Nat.and_lt_two_pow (n := 4) _ (by decide)

/-- Where the payload begins: after the header and the adaptation field. -/
def payloadStart : ℕ := if p.afc &&& 2 != 0 then 5 + (p.byte 4).toNat else 4

/-- The payload bytes; none when the adaptation field takes the whole packet. -/
def payload : Bytes := p.bytes.drop p.payloadStart

end Packet

/-- The continuity counter goes up by one, modulo 16. -/
def CcStep (a b : ℕ) : Prop := b = (a + 1) % 16

end Recdyud
