import Recdyud.Ts.Packet

/-!
# Dropping null packets

`drop_null_packets` copies runs of other packets in one piece: `start` marks where the current run
began. After `k` packets, what was copied so far and the run under way are together the packets kept
so far; this is `Kept`, the invariant of the loop. Two shortcuts return the buffer itself, when
nothing was dropped and when there is no whole packet.
-/

namespace Recdyud

namespace DropNull

/-- The variables of the loop. -/
structure Loop where
  out : List Bytes := []
  start : Option ℕ := none

/-- The loop body. -/
def body (packets : Bytes) (l : Loop) (off : ℕ) : Except IndexError Loop := do
  let b1 ← index packets (off + 1)
  let b2 ← index packets (off + 2)
  if ((b1 &&& 0x1F).toNat <<< 8) ||| b2.toNat = nullPid then
    match l.start with
    | some start => return { out := l.out ++ [slice packets start off], start := none }
    | none => return l
  else
    match l.start with
    | some _ => return l
    | none => return { l with start := some off }

end DropNull

/-- `drop_null_packets` -/
def dropNullPackets (packets : Bytes) : Except IndexError Bytes := do
  let l ← (pyRange 0 (packets.length + 1 - packetSize) packetSize).foldlM
    (DropNull.body packets) {}
  if l.start = some 0 ∨ packets.length < packetSize then
    return packets
  else
    match l.start with
    | none => return l.out.flatten
    | some start => return (l.out ++ [packets.drop start]).flatten

/-- Not a null packet. -/
def Packet.kept (p : Packet) : Bool := (p.pid : ℕ) ≠ nullPid

/-- The packets of a buffer that are not null packets. -/
def withoutNull (packets : Bytes) : Bytes :=
  ((packetsOf packets).filter Packet.kept).flatMap Packet.bytes

theorem withoutNull_append {a : Bytes} (ha : Aligned a) (b : Bytes) :
    withoutNull (a ++ b) = withoutNull a ++ withoutNull b := by
  rw [withoutNull, packetsOf_append ha, List.filter_append, List.flatMap_append]
  rfl

namespace DropNull

/-- After the packets `done`: what was copied and the run under way are the packets kept. -/
structure Kept (done : List Packet) (l : Loop) : Prop where
  out : l.out.flatten ++ l.start.elim [] (fun start ↦ (done.flatMap Packet.bytes).drop start)
    = (done.filter Packet.kept).flatMap Packet.bytes
  start_le : ∀ start, l.start = some start → start ≤ packetSize * done.length
  /-- A run from the very beginning has nothing copied in front of it. -/
  from_zero : l.start = some 0 → l.out.flatten = []

variable {done rest : List Packet} {p : Packet} {l : Loop}

/-- What the loop body does at the packet `p`, after the packets `done`. -/
def next (done : List Packet) (p : Packet) (l : Loop) : Loop :=
  if p.kept then
    { l with start := l.start.or (some (packetSize * done.length)) }
  else
    match l.start with
    | some start => { out := l.out ++ [(done.flatMap Packet.bytes).drop start], start := none }
    | none => l

theorem body_eq (done : List Packet) (p : Packet) (rest : List Packet) (l : Loop) :
    body ((done ++ p :: rest).flatMap Packet.bytes) l (packetSize * done.length)
      = .ok (next done p l) := by
  set data := (done ++ p :: rest).flatMap Packet.bytes with hdata
  have hlen := length_flatMap_bytes done
  have hsplit : data = done.flatMap Packet.bytes ++ (p.bytes ++ rest.flatMap Packet.bytes) := by
    rw [hdata, List.flatMap_append, List.flatMap_cons]
  have hp : p.bytes = slice data (packetSize * done.length)
      (packetSize * done.length + packetSize) := by
    rw [slice_add, hsplit, ← hlen, List.drop_left, ← p.length_eq, List.take_left]
  have hrun : ∀ start, slice data start (packetSize * done.length)
      = (done.flatMap Packet.bytes).drop start := by
    intro start
    rw [slice, hsplit, ← hlen, List.take_left]
  have hpid : ((p.byte 1 &&& 0x1F).toNat <<< 8) ||| (p.byte 2).toNat = (p.pid : ℕ) := rfl
  rw [body, Packet.index_of_slice hp 1, Packet.index_of_slice hp 2, next]
  simp only [bind, Except.bind, hpid, hrun]
  obtain ⟨out, start⟩ := l
  by_cases hnull : (p.pid : ℕ) = nullPid
  · have hkept : ¬p.kept = true := by simp [Packet.kept, hnull]
    rw [if_pos hnull, if_neg hkept]
    cases start <;> rfl
  · have hkept : p.kept = true := by simp [Packet.kept, hnull]
    rw [if_neg hnull, if_pos hkept]
    cases start <;> rfl

/-- At a null packet the run under way is copied. -/
theorem kept_next_null (h : Kept done l) (hp : p.kept = false) :
    Kept (done ++ [p]) (next done p l) := by
  have hkept : (done ++ [p]).filter Packet.kept = done.filter Packet.kept := by
    rw [List.filter_append, List.filter_singleton, hp]
    exact List.append_nil _
  rw [next, hp, if_neg Bool.false_ne_true]
  cases hstart : l.start with
  | none =>
    refine ⟨?_, by simp [hstart], by simp [hstart]⟩
    rw [hkept, ← h.out, hstart]
    rfl
  | some start =>
    refine ⟨?_, by simp, by simp⟩
    rw [hkept, ← h.out, hstart]
    simp

/-- Another packet goes on with the run, or begins one. -/
theorem kept_next_kept (h : Kept done l) (hp : p.kept = true) :
    Kept (done ++ [p]) (next done p l) := by
  have hlen := length_flatMap_bytes done
  have hkept : ((done ++ [p]).filter Packet.kept).flatMap Packet.bytes
      = (done.filter Packet.kept).flatMap Packet.bytes ++ p.bytes := by
    rw [List.filter_append, List.filter_singleton, hp, List.flatMap_append]
    exact congrArg (_ ++ ·) (List.flatMap_singleton _ _)
  have hsnoc : (done ++ [p]).flatMap Packet.bytes = done.flatMap Packet.bytes ++ p.bytes := by
    rw [List.flatMap_append, List.flatMap_singleton]
  have hle : packetSize * done.length ≤ packetSize * (done ++ [p]).length :=
    Nat.mul_le_mul_left _ (by simp)
  rw [next, if_pos hp]
  cases hstart : l.start with
  | none =>
    -- a run begins here, at 0 only when this is the first packet
    refine ⟨?_, ?_, ?_⟩
    · rw [hkept, ← h.out, hstart, hsnoc, ← hlen]
      simp
    · rintro start ⟨⟩
      exact hle
    · intro hzero
      have hdone : done = [] := by
        have := Option.some.inj hzero
        simp only [packetSize] at this
        exact List.length_eq_zero_iff.mp (by omega)
      have hout := h.out
      rw [hstart, hdone] at hout
      simpa using hout
  | some start =>
    have hstart_le := h.start_le start hstart
    refine ⟨?_, ?_, ?_⟩
    · rw [hkept, ← h.out, hstart, hsnoc]
      simp only [Option.some_or, Option.elim_some]
      rw [List.drop_append_of_le_length (by rw [hlen]; exact hstart_le), List.append_assoc]
    · rintro start' ⟨⟩
      exact hstart_le.trans hle
    · rw [Option.some_or, ← hstart]
      exact h.from_zero

/-- The loop over a buffer of packets. -/
theorem kept_foldlM (rest : List Packet) (h : Kept done l) :
    ∃ l', ((List.range' done.length rest.length).map (packetSize * ·)).foldlM
        (body ((done ++ rest).flatMap Packet.bytes)) l = .ok l' ∧ Kept (done ++ rest) l' := by
  induction rest generalizing done l with
  | nil => exact ⟨l, rfl, by rwa [List.append_nil]⟩
  | cons p rest ih =>
    have hnext : Kept (done ++ [p]) (next done p l) := by
      cases hp : p.kept with
      | false => exact kept_next_null h hp
      | true => exact kept_next_kept h hp
    obtain ⟨l', hloop, h'⟩ := ih hnext
    rw [List.append_assoc, List.singleton_append] at hloop h'
    refine ⟨l', ?_, h'⟩
    rw [List.length_cons, List.range'_succ, List.map_cons, List.foldlM_cons, body_eq]
    rwa [List.length_append, List.length_singleton] at hloop

end DropNull

/-- `drop_null_packets` raises nothing and keeps the packets that are not null packets. -/
theorem dropNullPackets_eq {packets : Bytes} (h : Aligned packets) :
    dropNullPackets packets = .ok (withoutNull packets) := by
  have hdata := flatMap_bytes_packetsOf h
  have hlen := length_packetsOf packets
  have hinit : DropNull.Kept [] {} := ⟨rfl, by simp, by simp⟩
  obtain ⟨l, hloop, hkept⟩ := DropNull.kept_foldlM (packetsOf packets) hinit
  rw [List.nil_append] at hloop hkept
  rw [hdata, List.length_nil, hlen] at hloop
  have hout := hkept.out
  rw [hdata, ← withoutNull] at hout
  have hrange : pyRange 0 (packets.length + 1 - packetSize) packetSize
      = (List.range' 0 (packets.length / packetSize)).map (packetSize * ·) := by
    have hdiv : (packets.length + 1 - packetSize + packetSize - 1) / packetSize
        = packets.length / packetSize := by
      simp only [packetSize]
      omega
    rw [pyRange_zero, hdiv, List.range_eq_range']
  rw [dropNullPackets, hrange, hloop]
  simp only [bind, Except.bind]
  split
  · -- the two shortcuts: nothing was dropped, or there is no whole packet
    rename_i hshort
    rcases hshort with hzero | hshort
    · rw [hzero, hkept.from_zero hzero] at hout
      exact congrArg Except.ok (by simpa using hout)
    · have hempty : packets = [] := by rw [← hdata, packetsOf_of_lt hshort]; rfl
      rw [withoutNull, packetsOf_of_lt hshort, hempty]
      rfl
  · cases hstart : l.start with
    | none =>
      rw [hstart] at hout
      exact congrArg Except.ok (by simpa using hout)
    | some start =>
      rw [hstart] at hout
      refine congrArg Except.ok ?_
      rw [List.flatten_append, ← hout]
      simp

/-! ## The filter -/

theorem withoutNull_flatMap_bytes (ps : List Packet) :
    withoutNull (ps.flatMap Packet.bytes) = (ps.filter Packet.kept).flatMap Packet.bytes := by
  rw [withoutNull, packetsOf_flatMap_bytes]

theorem packetsOf_withoutNull (packets : Bytes) :
    packetsOf (withoutNull packets) = (packetsOf packets).filter Packet.kept :=
  packetsOf_flatMap_bytes _

theorem aligned_withoutNull (packets : Bytes) : Aligned (withoutNull packets) :=
  ⟨_, length_flatMap_bytes _⟩

theorem withoutNull_withoutNull (packets : Bytes) :
    withoutNull (withoutNull packets) = withoutNull packets := by
  rw [withoutNull, packetsOf_withoutNull, List.filter_filter, withoutNull]
  simp only [Bool.and_self]

/-- **`drop_null_packets` is a filter**: of any packets it keeps, in order, those whose PID is not
`0x1FFF`. So a second pass changes nothing, and buffers may be filtered one by one. -/
theorem dropNullPackets_filter :
    (∀ ps : List Packet, dropNullPackets (ps.flatMap Packet.bytes)
      = .ok ((ps.filter fun p ↦ (p.pid : ℕ) ≠ 0x1FFF).flatMap Packet.bytes))
    ∧ (∀ a out : Bytes, Aligned a → dropNullPackets a = .ok out → dropNullPackets out = .ok out)
    ∧ ∀ a b : Bytes, Aligned a → Aligned b → dropNullPackets (a ++ b) = do
      return (← dropNullPackets a) ++ (← dropNullPackets b) := by
  refine ⟨?_, ?_, ?_⟩
  · intro ps
    rw [dropNullPackets_eq ⟨_, length_flatMap_bytes ps⟩, withoutNull_flatMap_bytes]
    rfl
  · intro a out ha hout
    rw [dropNullPackets_eq ha] at hout
    cases hout
    rw [dropNullPackets_eq (aligned_withoutNull a), withoutNull_withoutNull]
  · intro a b ha hb
    rw [dropNullPackets_eq ha, dropNullPackets_eq hb, dropNullPackets_eq (ha.append hb),
      withoutNull_append ha]
    rfl

/-- A packet without payload, by the two bytes that hold its flags and PID. -/
def barePacket (b1 b2 : UInt8) : Packet where
  bytes := [0x47, b1, b2, 0x00] ++ List.replicate 184 0xFF
  length_eq := rfl

theorem dropNullPackets_filter_bare :
    dropNullPackets ([barePacket 0x1F 0xFF, barePacket 0x01 0x00].flatMap Packet.bytes)
        = .ok (barePacket 0x01 0x00).bytes
    ∧ dropNullPackets (barePacket 0x01 0x00).bytes = .ok (barePacket 0x01 0x00).bytes
    ∧ dropNullPackets ((barePacket 0x1F 0xFF).bytes ++ (barePacket 0x01 0x00).bytes) = do
      return (← dropNullPackets (barePacket 0x1F 0xFF).bytes)
        ++ (← dropNullPackets (barePacket 0x01 0x00).bytes) := by
  have hnull : ((barePacket 0x1F 0xFF).pid : ℕ) = 0x1FFF := by decide
  have hother : ((barePacket 0x01 0x00).pid : ℕ) ≠ 0x1FFF := by decide
  have hfirst := dropNullPackets_filter.1 [barePacket 0x1F 0xFF, barePacket 0x01 0x00]
  rw [List.filter_cons_of_neg (by simpa using hnull),
    List.filter_cons_of_pos (by simpa using hother), List.filter_nil, List.flatMap_singleton]
    at hfirst
  exact ⟨hfirst,
    dropNullPackets_filter.2.1 _ _ ⟨2, by rw [length_flatMap_bytes, Nat.mul_comm]; rfl⟩ hfirst,
    dropNullPackets_filter.2.2 _ _ (Packet.aligned_bytes _) (Packet.aligned_bytes _)⟩

end Recdyud
