import Recdyud.Ts.Aligner
import Recdyud.Ts.Packet

/-!
# Finding the packets again

Two kinds of damage put the aligner out of step: garbage between the packets, and bytes that are
missing. In both cases the stream is a run of packets, then bytes that do not continue it, then
another run; so both come down to what `scan` does at such a joint.

A joint costs one lost sync and nothing else, provided that the bytes in it do not look like the
beginning of packets — `scan_true_of_garbage`. For garbage that is an assumption on the stream
(`HidesNoSync`); for missing bytes it holds because the rest of a cut packet contains no sync byte
at all.

## Missing bytes

What happens depends on where the cut begins, `r` bytes into a packet, and where it ends, `s` bytes
into another. With `r = s` the alignment survives, and nobody notices. With `r > 0` the packet that
was begun is filled up from behind the gap, so a packet made of two parts comes out, and the end of
that packet decides which one can be found next.
-/

namespace Recdyud

/-! ## Runs of packets -/

namespace Packet

/-- The packet begins with the sync byte. -/
def Synced (p : Packet) : Prop := p.bytes[0]? = some syncByte

instance (p : Packet) : Decidable p.Synced := inferInstanceAs (Decidable (_ = _))

/-- The sync byte occurs at the beginning only. -/
structure Clean (p : Packet) : Prop where
  synced : p.Synced
  not_sync : ∀ i, 0 < i → p.bytes[i]? ≠ some syncByte

end Packet

theorem getElem?_flatMap_bytes {ps : List Packet} (hs : ∀ p ∈ ps, p.Synced) (tail : Bytes) {i : ℕ}
    (hi : i < ps.length) : (ps.flatMap Packet.bytes ++ tail)[i * packetSize]? = some syncByte := by
  induction ps generalizing i with
  | nil => exact absurd hi (Nat.not_lt_zero i)
  | cons p ps ih =>
    have hp := p.length_eq
    rw [List.flatMap_cons, List.append_assoc]
    cases i with
    | zero =>
      rw [Nat.zero_mul, List.getElem?_append_left (by rw [hp]; decide)]
      exact hs p List.mem_cons_self
    | succ i =>
      rw [Nat.succ_mul, List.getElem?_append_right (by omega), hp, Nat.add_sub_cancel]
      exact ih (fun q hq ↦ hs q (List.mem_cons_of_mem _ hq)) (Nat.lt_of_succ_lt_succ hi)

/-- Enough packets in a row are a place to lock on. -/
theorem syncAt_flatMap_bytes {ps : List Packet} (hs : ∀ p ∈ ps, p.Synced)
    (h : syncConfirm ≤ ps.length) (tail : Bytes) :
    SyncAt (ps.flatMap Packet.bytes ++ tail) 0 := by
  intro k hk
  rw [Nat.zero_add]
  exact getElem?_flatMap_bytes hs tail (hk.trans_le h)

/-- In lock, a run of packets comes out as it is. -/
theorem scan_true_of_packets {ps : List Packet} (hs : ∀ p ∈ ps, p.Synced) (tail : Bytes) :
    scan true (ps.flatMap Packet.bytes ++ tail) = { scan true tail with
      out := ps.flatMap Packet.bytes ++ (scan true tail).out } := by
  have hlen : (ps.flatMap Packet.bytes).length = ps.length * packetSize := by
    rw [length_flatMap_bytes, mul_comm]
  rw [scan_true_of_run (n := ps.length) (by rw [List.length_append, hlen]; omega)
    (fun i hi ↦ getElem?_flatMap_bytes hs tail hi), ← hlen, List.take_left, List.drop_left]

/-! ## A joint -/

section Joint

variable {g data : Bytes}

/-- Garbage in front of a place to lock on, with nothing in it that looks like one. -/
theorem firstSync_of_garbage (hg : ∀ k < g.length, ¬SyncAt (g ++ data) k) (hsync : SyncAt data 0) :
    firstSync (g ++ data) = some g.length := by
  refine firstSync_eq_some_iff.mpr ⟨?_, hg⟩
  have hdrop : SyncAt ((g ++ data).drop g.length) 0 := by rwa [List.drop_left]
  rwa [syncAt_drop, Nat.add_zero] at hdrop

theorem scan_false_of_garbage (hg : ∀ k < g.length, ¬SyncAt (g ++ data) k)
    (hsync : SyncAt data 0) :
    scan false (g ++ data) = { scan true data with
      skipped := (scan true data).skipped + g.length } := by
  rw [scan_false_of_some (firstSync_of_garbage hg hsync), List.drop_left]

/-- **A joint** costs one lost sync: out of lock at the first byte that is no sync byte, and in lock
again behind the garbage. -/
theorem scan_true_of_garbage (hhead : ∃ b, g.head? = some b ∧ b ≠ syncByte)
    (hg : ∀ k < g.length, ¬SyncAt (g ++ data) k) (hsync : SyncAt data 0) :
    scan true (g ++ data) = { scan true data with
      losses := (scan true data).losses + 1
      skipped := (scan true data).skipped + (g.length - 1) } := by
  obtain ⟨b, hb, hne⟩ := hhead
  cases g with
  | nil => cases hb
  | cons b' g =>
    obtain rfl := Option.some.inj hb
    have hlen : packetSize ≤ (b' :: g ++ data).length := by
      have := hsync.lt_length
      rw [List.length_append]
      simp only [packetSize, syncConfirm] at this ⊢
      omega
    have hbad : (b' :: g ++ data)[0]? ≠ some syncByte := fun h ↦ hne (Option.some.inj h)
    -- the search goes on behind the bad byte, in what is left of the garbage
    have hrest : ∀ k < g.length, ¬SyncAt (g ++ data) k := by
      intro k hk hat
      refine hg (k + 1) (Nat.succ_lt_succ hk) ?_
      rw [Nat.add_comm, ← syncAt_drop]
      exact hat
    rw [scan_true_of_loss hlen hbad]
    change { scan false (g ++ data) with losses := (scan false (g ++ data)).losses + 1 } = _
    rw [scan_false_of_garbage hrest hsync]
    rfl

end Joint

/-! ## Garbage between runs -/

/-- A run of packets that is long enough to be found. -/
structure SyncedRun where
  packets : List Packet
  confirm_le : syncConfirm ≤ packets.length
  synced : ∀ p ∈ packets, p.Synced

namespace SyncedRun

def bytes (run : SyncedRun) : Bytes := run.packets.flatMap Packet.bytes

theorem syncAt (run : SyncedRun) (tail : Bytes) : SyncAt (run.bytes ++ tail) 0 :=
  syncAt_flatMap_bytes run.synced run.confirm_le tail

theorem scan_true (run : SyncedRun) (tail : Bytes) :
    scan true (run.bytes ++ tail) = { scan true tail with
      out := run.bytes ++ (scan true tail).out } := scan_true_of_packets run.synced tail

end SyncedRun

/-- Garbage and a run behind it, again and again. -/
def streamOf (segments : List (Bytes × SyncedRun)) : Bytes :=
  segments.flatMap fun x ↦ x.1 ++ x.2.bytes

theorem streamOf_cons (g : Bytes) (run : SyncedRun) (segments : List (Bytes × SyncedRun)) :
    streamOf ((g, run) :: segments) = g ++ (run.bytes ++ streamOf segments) := by
  rw [streamOf, List.flatMap_cons, List.append_assoc]
  rfl

/-- No position in the garbage looks like the beginning of packets. -/
def HidesNoSync (segments : List (Bytes × SyncedRun)) : Prop :=
  ∀ before g run after, segments = before ++ (g, run) :: after →
    ∀ k < g.length, ¬SyncAt (streamOf segments) ((streamOf before).length + k)

theorem HidesNoSync.head {g : Bytes} {run : SyncedRun} {segments : List (Bytes × SyncedRun)}
    (h : HidesNoSync ((g, run) :: segments)) :
    ∀ k < g.length, ¬SyncAt (g ++ (run.bytes ++ streamOf segments)) k := by
  intro k hk
  have hhead := h [] g run segments rfl k hk
  have hnil : (streamOf []).length = 0 := rfl
  rwa [hnil, Nat.zero_add, streamOf_cons] at hhead

theorem HidesNoSync.tail {x : Bytes × SyncedRun} {segments : List (Bytes × SyncedRun)}
    (h : HidesNoSync (x :: segments)) : HidesNoSync segments := by
  intro before g run after hsplit k hk hsync
  refine h (x :: before) g run after (by rw [hsplit]; rfl) k hk ?_
  have hdrop : (streamOf (x :: segments)).drop (x.1 ++ x.2.bytes).length = streamOf segments :=
    List.drop_left
  rw [← hdrop, syncAt_drop, ← Nat.add_assoc] at hsync
  have hlen : (streamOf (x :: before)).length
      = (x.1 ++ x.2.bytes).length + (streamOf before).length := List.length_append
  rwa [hlen]

/-- In lock, every run comes out and every piece of garbage costs one sync. -/
theorem scan_true_streamOf {segments : List (Bytes × SyncedRun)}
    (hhead : ∀ x ∈ segments, ∃ b, x.1.head? = some b ∧ b ≠ syncByte)
    (hno : HidesNoSync segments) :
    scan true (streamOf segments) =
      { out := segments.flatMap fun x ↦ x.2.bytes
        losses := segments.length
        skipped := (segments.map fun x ↦ x.1.length - 1).sum
        locked := true
        rest := [] } := by
  induction segments with
  | nil => exact scan_true_of_lt (by decide)
  | cons x segments ih =>
    obtain ⟨g, run⟩ := x
    rw [streamOf_cons, scan_true_of_garbage (hhead _ List.mem_cons_self) hno.head (run.syncAt _),
      run.scan_true, ih (fun y hy ↦ hhead y (List.mem_cons_of_mem _ hy)) hno.tail]
    simp [Nat.add_comm]

namespace PacketAligner

/-- **Resynchronisation.** Of a stream of runs with garbage in front of the first and between them,
a fresh aligner returns exactly the runs, however the stream is cut. It ends in lock with nothing
pending, and has lost sync once for every piece of garbage between two runs. -/
theorem feed_streamOf (g : Bytes) (run : SyncedRun) {segments : List (Bytes × SyncedRun)}
    (hhead : ∀ x ∈ segments, ∃ b, x.1.head? = some b ∧ b ≠ syncByte)
    (hno : HidesNoSync ((g, run) :: segments)) {chunks : List Bytes}
    (h : chunks.flatten = streamOf ((g, run) :: segments)) :
    ∃ final, feedAll feed {} chunks
        = .ok (final, run.bytes ++ segments.flatMap fun x ↦ x.2.bytes) ∧
      final.locked = true ∧ final.pending = [] ∧ final.syncLosses = segments.length := by
  have hscan := scan_false_of_garbage hno.head (run.syncAt (streamOf segments))
  rw [run.scan_true, scan_true_streamOf hhead hno.tail, ← streamOf_cons, ← h] at hscan
  refine ⟨(absorb {} chunks.flatten).1, ?_, ?_⟩
  · rw [feedAll_feed, absorb, List.nil_append, hscan]
  · rw [absorb, List.nil_append, hscan]
    exact ⟨rfl, rfl, Nat.zero_add _⟩

end PacketAligner

/-- A packet with nothing but zeros behind the sync byte. -/
def zeroPacket : Packet := ⟨syncByte :: List.replicate 187 0, rfl⟩

theorem zeroPacket_clean : zeroPacket.Clean where
  synced := rfl
  not_sync := by
    intro i hi
    obtain ⟨i, rfl⟩ := Nat.exists_eq_succ_of_ne_zero hi.ne'
    change (List.replicate 187 (0 : UInt8))[i]? ≠ some syncByte
    rw [List.getElem?_replicate]
    split <;> decide

def zeroRun : SyncedRun where
  packets := List.replicate 4 zeroPacket
  confirm_le := by decide
  synced := by decide

namespace PacketAligner

/-- Two bytes of garbage in front, and one in the middle that breaks the phase. -/
theorem feed_streamOf_zeroRun :
    ∃ final, feedAll feed {} [streamOf [([0x00, 0x47], zeroRun), ([0x12], zeroRun)]]
        = .ok (final, zeroRun.bytes ++ zeroRun.bytes) ∧
      final.locked = true ∧ final.pending = [] ∧ final.syncLosses = 1 := by
  have hhead : ∀ x ∈ [(([0x12] : Bytes), zeroRun)], ∃ b, x.1.head? = some b ∧ b ≠ syncByte := by
    intro x hx
    rw [List.mem_singleton.mp hx]
    exact ⟨0x12, rfl, by decide⟩
  have hno : HidesNoSync [([0x00, 0x47], zeroRun), ([0x12], zeroRun)] := by
    intro before g run after hsplit
    match before with
    | [] =>
      simp only [List.nil_append, List.cons.injEq, Prod.mk.injEq] at hsplit
      obtain ⟨⟨rfl, rfl⟩, -⟩ := hsplit
      decide +kernel
    | [x] =>
      simp only [List.cons_append, List.nil_append, List.cons.injEq, Prod.mk.injEq] at hsplit
      obtain ⟨rfl, ⟨rfl, rfl⟩, -⟩ := hsplit
      decide +kernel
    | _ :: _ :: _ =>
      have hlen := congrArg List.length hsplit
      simp only [List.length_cons, List.length_append, List.length_nil] at hlen
      omega
  have hfeed := feed_streamOf [0x00, 0x47] zeroRun hhead hno List.flatten_singleton
  rwa [List.flatMap_singleton] at hfeed

end PacketAligner

/-! ## Missing bytes -/

section Gap

variable {ps : List Packet}

theorem flatMap_bytes_split {a : ℕ} (ha : a < ps.length) :
    ps.flatMap Packet.bytes = (ps.take a).flatMap Packet.bytes
      ++ (ps[a].bytes ++ (ps.drop (a + 1)).flatMap Packet.bytes) := by
  conv_lhs => rw [← List.take_append_drop a ps, List.drop_eq_getElem_cons ha]
  rw [List.flatMap_append, List.flatMap_cons]

theorem length_take_flatMap_bytes {a : ℕ} (ha : a < ps.length) :
    ((ps.take a).flatMap Packet.bytes).length = packetSize * a := by
  rw [length_flatMap_bytes, List.length_take, Nat.min_eq_left ha.le]

/-- The bytes up to the middle of a packet. -/
theorem take_flatMap_bytes {a r : ℕ} (ha : a < ps.length) (hr : r ≤ packetSize) :
    (ps.flatMap Packet.bytes).take (packetSize * a + r)
      = (ps.take a).flatMap Packet.bytes ++ ps[a].bytes.take r := by
  rw [flatMap_bytes_split ha, ← length_take_flatMap_bytes ha, List.take_length_add_append,
    List.take_append_of_le_length (by rw [ps[a].length_eq]; exact hr)]

/-- The bytes from the middle of a packet on. -/
theorem drop_flatMap_bytes {b s : ℕ} (hb : b < ps.length) (hs : s ≤ packetSize) :
    (ps.flatMap Packet.bytes).drop (packetSize * b + s)
      = ps[b].bytes.drop s ++ (ps.drop (b + 1)).flatMap Packet.bytes := by
  rw [flatMap_bytes_split hb, ← length_take_flatMap_bytes hb, List.drop_length_add_append,
    List.drop_append_of_le_length (by rw [ps[b].length_eq]; exact hs)]

theorem out_scan_of_packets (hs : ∀ p ∈ ps, p.Synced) :
    (scan true (ps.flatMap Packet.bytes)).out = ps.flatMap Packet.bytes := by
  have hnil : (scan true []).out = [] := by rw [scan_true_of_lt (by decide)]
  have h := congrArg Scan.out (scan_true_of_packets hs [])
  rw [List.append_nil] at h
  rw [h, hnil, List.append_nil]

/-- In lock from the middle of a packet on: the rest of that packet is lost, and all others are
found. -/
theorem out_scan_drop (hclean : ∀ p ∈ ps, p.Clean) {b k : ℕ} (hk : k ≤ packetSize)
    (hb : b + 1 + syncConfirm ≤ ps.length) :
    (scan true ((ps.flatMap Packet.bytes).drop (packetSize * b + k))).out
      = (ps.drop (if k = 0 then b else b + 1)).flatMap Packet.bytes := by
  have hlt : b < ps.length := by omega
  have hsynced (n : ℕ) : ∀ p ∈ ps.drop n, p.Synced :=
    fun p hp ↦ (hclean p (List.mem_of_mem_drop hp)).synced
  rw [drop_flatMap_bytes hlt hk]
  rcases Nat.eq_zero_or_pos k with rfl | hpos
  · rw [List.drop_zero, if_pos rfl, ← List.flatMap_cons, ← List.drop_eq_getElem_cons hlt]
    exact out_scan_of_packets (hsynced b)
  · rw [if_neg (by omega)]
    rcases hk.eq_or_lt with rfl | hlast
    · rw [List.drop_of_length_le ps[b].length_eq.le, List.nil_append]
      exact out_scan_of_packets (hsynced (b + 1))
    · have hp : ps[b].Clean := hclean _ (List.getElem_mem hlt)
      have hsync : SyncAt ((ps.drop (b + 1)).flatMap Packet.bytes) 0 := by
        have := syncAt_flatMap_bytes (hsynced (b + 1)) (by rw [List.length_drop]; omega) []
        rwa [List.append_nil] at this
      -- nothing in the rest of the packet is a sync byte
      have hgarbage : ∀ i < (ps[b].bytes.drop k).length,
          (ps[b].bytes.drop k ++ (ps.drop (b + 1)).flatMap Packet.bytes)[i]? ≠ some syncByte := by
        intro i hi
        rw [List.getElem?_append_left hi, List.getElem?_drop]
        exact hp.not_sync (k + i) (by omega)
      have hpart : 0 < (ps[b].bytes.drop k).length := by
        rw [List.length_drop, ps[b].length_eq]
        omega
      have hhead : ∃ b', (ps[b].bytes.drop k).head? = some b' ∧ b' ≠ syncByte := by
        refine ⟨(ps[b].bytes.drop k)[0], List.head?_eq_getElem?.trans
          (List.getElem?_eq_getElem hpart), fun h ↦ hgarbage 0 hpart ?_⟩
        rw [List.getElem?_append_left hpart, List.getElem?_eq_getElem hpart, h]
      rw [scan_true_of_garbage hhead (fun i hi hat ↦ hgarbage i hi hat.head) hsync]
      exact out_scan_of_packets (hsynced (b + 1))

/-- Of the bytes `data` those from `x` on are missing, up to `y`. -/
def cutOut (data : Bytes) (x y : ℕ) : Bytes := data.take x ++ data.drop y

/-- The packet that is made of the two sides of a gap, when the gap begins `r > 0` bytes into
packet `a`. -/
def spliced (data : Bytes) (a r y : ℕ) : Bytes :=
  if r = 0 then []
  else slice data (packetSize * a) (packetSize * a + r) ++ (data.drop y).take (packetSize - r)

/-- The first packet found behind a gap from `r` bytes into a packet to `s` bytes into packet
`b`. -/
def foundAgain (b r s : ℕ) : ℕ :=
  if r = 0 ∧ s = 0 then b else if 0 < r ∧ r < s then b + 2 else b + 1

variable {a b r s : ℕ}

/-- The gap, for an aligner in lock at packet `a`. -/
theorem out_scan_gap (hclean : ∀ p ∈ ps, p.Clean) (hr : r < packetSize) (hs : s < packetSize)
    (hab : a ≤ b) (hb : b + 6 ≤ ps.length) :
    (scan true (slice (ps.flatMap Packet.bytes) (packetSize * a) (packetSize * a + r)
        ++ (ps.flatMap Packet.bytes).drop (packetSize * b + s))).out
      = spliced (ps.flatMap Packet.bytes) a r (packetSize * b + s)
        ++ (ps.drop (foundAgain b r s)).flatMap Packet.bytes := by
  set data := ps.flatMap Packet.bytes with hdata
  have hconfirm : b + 2 + syncConfirm ≤ ps.length := hb
  have halt : a < ps.length := by omega
  have hbegun : slice data (packetSize * a) (packetSize * a + r) = ps[a].bytes.take r := by
    rw [slice, take_flatMap_bytes halt hr.le, ← length_take_flatMap_bytes halt, List.drop_left]
  rw [spliced]
  rcases Nat.eq_zero_or_pos r with rfl | hpos
  · rw [hbegun, List.take_zero, List.nil_append, if_pos rfl, List.nil_append,
      out_scan_drop hclean hs.le (by omega)]
    simp [foundAgain]
  · rw [if_neg (by omega)]
    have hlen : (slice data (packetSize * a) (packetSize * a + r)).length = r := by
      rw [hbegun, List.length_take, ps[a].length_eq, Nat.min_eq_left hr.le]
    have hleft : packetSize ≤ (data.drop (packetSize * b + s)).length := by
      rw [hdata, List.length_drop, length_flatMap_bytes]
      simp only [packetSize, syncConfirm] at hs hconfirm ⊢
      omega
    have hhead : (slice data (packetSize * a) (packetSize * a + r)
        ++ data.drop (packetSize * b + s))[0]? = some syncByte := by
      rw [List.getElem?_append_left (by omega), hbegun, List.getElem?_take_of_lt hpos]
      exact (hclean _ (List.getElem_mem halt)).synced
    -- the packet begun in front of the gap is filled up from behind it
    rw [scan_true_of_sync (by rw [List.length_append]; omega) hhead, List.take_append,
      List.drop_append, hlen, List.take_of_length_le (by omega), List.drop_of_length_le (by omega),
      List.nil_append, List.drop_drop]
    refine congrArg₂ (· ++ ·) rfl ?_
    rcases Nat.lt_or_ge r s with hlt | hge
    · -- what is left of packet `b` is not enough
      have hend : packetSize * b + s + (packetSize - r) = packetSize * (b + 1) + (s - r) := by
        rw [Nat.mul_succ]
        omega
      rw [hend, out_scan_drop hclean (by omega) (by omega), if_neg (by omega), foundAgain,
        if_neg (by omega), if_pos ⟨hpos, hlt⟩]
    · have hend : packetSize * b + s + (packetSize - r)
          = packetSize * b + (s + (packetSize - r)) := Nat.add_assoc _ _ _
      rw [hend, out_scan_drop hclean (by omega) (by omega), if_neg (by omega), foundAgain,
        if_neg (by omega), if_neg (by omega)]

/-- **Missing bytes.** Let the bytes from `x = 188 a + r` to `y = 188 b + s` of a stream of packets
be missing. However the rest is cut, a fresh aligner returns the packets in front of the gap, then a
packet made of both sides of it if and only if `r > 0`, and then the packets from
`foundAgain b r s` on. So it returns at most one packet that was not sent, and loses at most one of
those that lie whole behind the gap. -/
theorem PacketAligner.feed_cutOut (hclean : ∀ p ∈ ps, p.Clean) (hr : r < packetSize)
    (hs : s < packetSize) (hxy : packetSize * a + r ≤ packetSize * b + s) (ha : 4 ≤ a)
    (hb : b + 6 ≤ ps.length) {chunks : List Bytes}
    (h : chunks.flatten
      = cutOut (ps.flatMap Packet.bytes) (packetSize * a + r) (packetSize * b + s)) :
    (∃ final, feedAll feed {} chunks = .ok (final,
      (ps.take a).flatMap Packet.bytes
        ++ (spliced (ps.flatMap Packet.bytes) a r (packetSize * b + s)
          ++ (ps.drop (foundAgain b r s)).flatMap Packet.bytes))) ∧
    (spliced (ps.flatMap Packet.bytes) a r (packetSize * b + s)).length
      = (if r = 0 then 0 else packetSize) ∧
    foundAgain b r s ≤ (if s = 0 then b else b + 1) + 1 := by
  have hab : a ≤ b := by
    simp only [packetSize] at hr hs hxy
    omega
  have halt : a < ps.length := by omega
  have hsynced : ∀ p ∈ ps.take a, p.Synced :=
    fun p hp ↦ (hclean p (List.mem_of_mem_take hp)).synced
  have hfirst : chunks.flatten = (ps.take a).flatMap Packet.bytes
      ++ (slice (ps.flatMap Packet.bytes) (packetSize * a) (packetSize * a + r)
        ++ (ps.flatMap Packet.bytes).drop (packetSize * b + s)) := by
    rw [h, cutOut, slice, take_flatMap_bytes halt hr.le, ← length_take_flatMap_bytes halt,
      List.drop_left, List.append_assoc]
  refine ⟨⟨(absorb {} chunks.flatten).1, ?_⟩, ?_, ?_⟩
  · have hsync := syncAt_flatMap_bytes hsynced
      (by rw [List.length_take, Nat.min_eq_left halt.le]; exact ha)
      (slice (ps.flatMap Packet.bytes) (packetSize * a) (packetSize * a + r)
        ++ (ps.flatMap Packet.bytes).drop (packetSize * b + s))
    have hlock := scan_false_of_garbage (g := []) (by simp) hsync
    rw [List.nil_append, scan_true_of_packets hsynced, ← hfirst] at hlock
    rw [feedAll_feed, absorb, List.nil_append, hlock, ← out_scan_gap hclean hr hs hab hb]
  · rw [spliced]
    split
    · rfl
    · rw [List.length_append, slice_add, List.length_take, List.length_drop, List.length_take,
        List.length_drop, length_flatMap_bytes]
      simp only [packetSize] at hr hs ⊢
      omega
  · rw [foundAgain]
    split_ifs <;> omega

/-- Eleven packets of zeros, the 94 bytes from the middle of the fifth on missing: they are made up
for by the sixth. -/
theorem PacketAligner.feed_cutOut_zeros :
    (∃ final, feedAll feed {}
        [cutOut ((List.replicate 11 zeroPacket).flatMap Packet.bytes) (packetSize * 4 + 94)
          (packetSize * 5 + 0)] = .ok (final,
      ((List.replicate 11 zeroPacket).take 4).flatMap Packet.bytes
        ++ (spliced ((List.replicate 11 zeroPacket).flatMap Packet.bytes) 4 94 (packetSize * 5 + 0)
          ++ ((List.replicate 11 zeroPacket).drop (foundAgain 5 94 0)).flatMap Packet.bytes))) ∧
    (spliced ((List.replicate 11 zeroPacket).flatMap Packet.bytes) 4 94 (packetSize * 5 + 0)).length
      = packetSize ∧ foundAgain 5 94 0 ≤ 6 := by
  have hclean : ∀ p ∈ List.replicate 11 zeroPacket, p.Clean := by
    intro p hp
    rw [(List.mem_replicate.mp hp).2]
    exact zeroPacket_clean
  exact PacketAligner.feed_cutOut hclean (by decide) (by decide) (by decide) (by decide)
    (by decide) List.flatten_singleton

end Gap

end Recdyud
