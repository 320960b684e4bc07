import Recdyud.Ts.Aligner
import Recdyud.Ts.Packet

/-!
# What the aligner returns, keeps and skips

The bytes fed to an aligner are returned in packets, kept for the next call, or dropped. This file
says which packets those are, for streams of any content: each begins with a sync byte, and where
they do not follow one another directly, the later one begins at a confirmed sync position
(`PacketOffsets`).

## The byte that is counted nowhere

`skipped_bytes` counts what a search steps over. The head that gives a lost sync away is dropped
too, by the `pos += 1` in front of the search, and does not enter the count; every lost sync makes
it one byte too small (`scan_balance`). So the count is right exactly for the streams in which the
sync, once found, is never lost.
-/

namespace Recdyud

/-! ## Whole packets -/

namespace PacketAligner

theorem aligned_scan (locked : Bool) (data : Bytes) : Aligned (scan locked data).out := by
  induction locked, data using scan.induct with
  | case1 data h => rw [scan_true_of_lt h]; exact aligned_nil
  | case2 data h hsync ih =>
    rw [scan_true_of_sync (not_lt.mp h) hsync]
    refine Aligned.append ⟨1, ?_⟩ ih
    rw [List.length_take, Nat.min_eq_left (not_lt.mp h), mul_one]
  | case3 data h hsync ih => rw [scan_true_of_loss (not_lt.mp h) hsync]; exact ih
  | case4 locked data h hnone =>
    rw [Bool.not_eq_true] at h
    rw [h, scan_false_of_none hnone]
    exact aligned_nil
  | case5 locked data h j hsome ih =>
    rw [Bool.not_eq_true] at h
    rw [h, scan_false_of_some hsome]
    exact ih

theorem aligned_absorb (self : PacketAligner) (chunk : Bytes) : Aligned (self.absorb chunk).2 :=
  aligned_scan _ _

end PacketAligner

/-! ## The balance -/

/-- Every byte is returned, kept, skipped, or the head of a lost sync. -/
theorem scan_balance (locked : Bool) (data : Bytes) :
    data.length = (scan locked data).out.length + (scan locked data).rest.length
      + (scan locked data).skipped + (scan locked data).losses := by
  induction locked, data using scan.induct with
  | case1 data h =>
    rw [scan_true_of_lt h]
    simp
  | case2 data h hsync ih =>
    rw [scan_true_of_sync (not_lt.mp h) hsync]
    rw [List.length_drop] at ih
    simp only [List.length_append, List.length_take]
    omega
  | case3 data h hsync ih =>
    have hpos : 1 ≤ data.length := by simp only [packetSize] at h; omega
    rw [scan_true_of_loss (not_lt.mp h) hsync]
    rw [List.length_drop] at ih
    dsimp only
    omega
  | case4 locked data h hnone =>
    rw [Bool.not_eq_true] at h
    rw [h, scan_false_of_none hnone]
    simp only [List.length_drop, List.length_nil]
    omega
  | case5 locked data h j hsome ih =>
    rw [Bool.not_eq_true] at h
    have hj := firstSync_lt_length hsome
    rw [h, scan_false_of_some hsome]
    rw [List.length_drop] at ih
    dsimp only
    omega

/-- Every whole packet begins with the sync byte. -/
def Unbroken (data : Bytes) : Prop :=
  ∀ i, (i + 1) * packetSize ≤ data.length → data[i * packetSize]? = some syncByte

/-- The sync, once found, is not lost. -/
def KeepsSync (data : Bytes) : Prop := ∀ j, firstSync data = some j → Unbroken (data.drop j)

theorem unbroken_of_lt {data : Bytes} (h : data.length < packetSize) : Unbroken data := by
  intro i hi
  rw [Nat.succ_mul] at hi
  omega

theorem unbroken_drop_iff {data : Bytes} (h : packetSize ≤ data.length)
    (hsync : data[0]? = some syncByte) : Unbroken (data.drop packetSize) ↔ Unbroken data := by
  constructor
  · intro hrest i hi
    cases i with
    | zero => rw [Nat.zero_mul]; exact hsync
    | succ i =>
      have hnext := hrest i (by rw [List.length_drop]; rw [Nat.succ_mul] at hi; omega)
      rwa [List.getElem?_drop, Nat.add_comm, ← Nat.succ_mul] at hnext
  · intro hdata i hi
    have hnext := hdata (i + 1) (by rw [List.length_drop] at hi; rw [Nat.succ_mul]; omega)
    rwa [List.getElem?_drop, Nat.add_comm, ← Nat.succ_mul]

/-- In lock, sync is lost at the first whole packet with a bad head. -/
theorem losses_true_eq_zero_iff (data : Bytes) : (scan true data).losses = 0 ↔ Unbroken data := by
  induction hn : data.length using Nat.strong_induction_on generalizing data with
  | _ n ih =>
    by_cases hlt : data.length < packetSize
    · rw [scan_true_of_lt hlt]
      exact iff_of_true rfl (unbroken_of_lt hlt)
    · have hle := not_lt.mp hlt
      by_cases hsync : data[0]? = some syncByte
      · rw [scan_true_of_sync hle hsync, ← unbroken_drop_iff hle hsync]
        refine ih _ ?_ _ rfl
        rw [List.length_drop]
        simp only [packetSize] at hle ⊢
        omega
      · rw [scan_true_of_loss hle hsync]
        refine iff_of_false (Nat.succ_ne_zero _) fun h ↦ hsync ?_
        have hhead := h 0 (by rw [Nat.zero_add, Nat.one_mul]; exact hle)
        rwa [Nat.zero_mul] at hhead

theorem losses_false_eq_zero_iff (data : Bytes) :
    (scan false data).losses = 0 ↔ KeepsSync data := by
  cases hfirst : firstSync data with
  | none =>
    rw [scan_false_of_none hfirst, KeepsSync, hfirst]
    exact iff_of_true rfl fun j hj ↦ by cases hj
  | some j =>
    rw [scan_false_of_some hfirst, KeepsSync, hfirst]
    dsimp only
    rw [losses_true_eq_zero_iff]
    exact ⟨fun h k hk ↦ Option.some.inj hk ▸ h, fun h ↦ h j rfl⟩

namespace PacketAligner

/-- **Byte accounting.** After any calls on a fresh aligner, the bytes fed are those returned, those
pending, those skipped, and one for every lost sync; and so the first three account for all of them
if and only if the sync, once found, was never lost. -/
theorem feed_balance_iff (chunks : List Bytes) :
    ∃ final out, feedAll feed {} chunks = .ok (final, out) ∧
      chunks.flatten.length = out.length + final.pending.length + final.skippedBytes
        + final.syncLosses ∧
      (chunks.flatten.length = out.length + final.pending.length + final.skippedBytes ↔
        KeepsSync chunks.flatten) := by
  refine ⟨_, _, feedAll_feed chunks, ?_⟩
  have hbalance := scan_balance false chunks.flatten
  rw [← losses_false_eq_zero_iff]
  simp only [List.nil_append]
  omega

/-- Four packets, and a fifth with a bad head. -/
def badHead : Bytes := (List.replicate 4 (syncByte :: List.replicate 187 0)).flatten
  ++ List.replicate 188 0

/-- The bad head is neither returned nor pending nor counted. -/
theorem badHead_not_counted : ∃ final out, feedAll feed {} [badHead] = .ok (final, out) ∧
    badHead.length ≠ out.length + final.pending.length + final.skippedBytes := by
  refine ⟨_, _, feedAll_feed [badHead], ?_⟩
  have hbalance := scan_balance false badHead
  have hloss : (scan false badHead).losses ≠ 0 := by
    rw [ne_eq, losses_false_eq_zero_iff]
    intro hkeeps
    have hfirst : firstSync badHead = some 0 := by decide +kernel
    exact absurd (hkeeps 0 hfirst 4 (by decide +kernel)) (by decide +kernel)
  simp only [List.nil_append, List.flatten_singleton]
  omega

end PacketAligner

/-! ## Which packets are returned -/

/-- Offset `o'` may come after `o`: directly behind that packet, or at a confirmed sync position
further on. -/
def Follows (data : Bytes) (o o' : ℕ) : Prop :=
  o + packetSize ≤ o' ∧ (o' = o + packetSize ∨ SyncAt data o')

/-- Offsets at which packets may be cut out of `data`. -/
structure PacketOffsets (data : Bytes) (os : List ℕ) : Prop where
  inRange : ∀ o ∈ os, o + packetSize ≤ data.length
  synced : ∀ o ∈ os, data[o]? = some syncByte
  chain : os.IsChain (Follows data)

/-- The packets at the offsets. -/
def packetsAt (data : Bytes) (os : List ℕ) : Bytes :=
  os.flatMap fun o ↦ slice data o (o + packetSize)

theorem packetsAt_drop (data : Bytes) (n : ℕ) (os : List ℕ) :
    packetsAt (data.drop n) os = packetsAt data (os.map (n + ·)) := by
  rw [packetsAt, packetsAt, List.flatMap_map]
  refine List.flatMap_congr fun o _ ↦ ?_
  rw [slice_add, slice_add, List.drop_drop]

/-- Offsets in the rest of a stream, as offsets in the stream. -/
theorem PacketOffsets.shift {data : Bytes} {n : ℕ} {os : List ℕ} (hn : n ≤ data.length)
    (h : PacketOffsets (data.drop n) os) : PacketOffsets data (os.map (n + ·)) where
  inRange := by
    intro o ho
    obtain ⟨o, hmem, rfl⟩ := List.mem_map.mp ho
    have hrange := h.inRange o hmem
    rw [List.length_drop] at hrange
    omega
  synced := by
    intro o ho
    obtain ⟨o, hmem, rfl⟩ := List.mem_map.mp ho
    have hsynced := h.synced o hmem
    rwa [List.getElem?_drop] at hsynced
  chain := by
    refine (List.isChain_map _).mpr (h.chain.imp ?_)
    rintro o o' ⟨hle, hnext⟩
    refine ⟨by omega, ?_⟩
    rcases hnext with rfl | hsync
    · exact .inl (Nat.add_assoc _ _ _).symm
    · exact .inr (syncAt_drop.mp hsync)

theorem mem_head?_map {os : List ℕ} {n o : ℕ} (h : o ∈ (os.map (n + ·)).head?) :
    ∃ o' ∈ os.head?, n + o' = o := by
  rw [List.head?_map] at h
  exact Option.map_eq_some_iff.mp h

/-- A packet in front: the next one follows it directly, or stands at a sync position. -/
theorem PacketOffsets.cons {data : Bytes} {os : List ℕ} (hle : packetSize ≤ data.length)
    (hsync : data[0]? = some syncByte) (h : PacketOffsets (data.drop packetSize) os)
    (hhead : ∀ o ∈ os.head?, SyncAt (data.drop packetSize) o ∨ o = 0) :
    PacketOffsets data (0 :: os.map (packetSize + ·)) where
  inRange := List.forall_mem_cons.mpr ⟨by omega, (h.shift hle).inRange⟩
  synced := List.forall_mem_cons.mpr ⟨hsync, (h.shift hle).synced⟩
  chain := by
    refine List.isChain_cons.mpr ⟨fun o ho ↦ ?_, (h.shift hle).chain⟩
    obtain ⟨o, ho', rfl⟩ := mem_head?_map ho
    refine ⟨by omega, ?_⟩
    rcases hhead o ho' with hat | rfl
    · exact .inr (syncAt_drop.mp hat)
    · exact .inl (Nat.zero_add _).symm

theorem packetsAt_cons (data : Bytes) (os : List ℕ) :
    packetsAt data (0 :: os.map (packetSize + ·))
      = data.take packetSize ++ packetsAt (data.drop packetSize) os := by
  rw [packetsAt_drop, packetsAt, packetsAt, List.flatMap_cons, slice_add]
  rfl

theorem PacketOffsets.nil {data : Bytes} : PacketOffsets data [] := ⟨by simp, by simp, .nil⟩

/-- `out` is cut out of `data`, the first packet at a sync position or, if `locked`, at the
beginning. -/
def CutFrom (data out : Bytes) (locked : Bool) : Prop :=
  ∃ os, PacketOffsets data os ∧ out = packetsAt data os ∧
    ∀ o ∈ os.head?, SyncAt data o ∨ locked = true ∧ o = 0

/-- Skipping bytes, up to a sync position or to search on. -/
theorem CutFrom.skip {data out : Bytes} {n : ℕ} {locked : Bool} (hn : n ≤ data.length)
    (hsync : locked = true → SyncAt data n) (h : CutFrom (data.drop n) out locked)
    (locked' : Bool) : CutFrom data out locked' := by
  obtain ⟨os, hos, rfl, hhead⟩ := h
  refine ⟨os.map (n + ·), hos.shift hn, packetsAt_drop data n os, fun o ho ↦ .inl ?_⟩
  obtain ⟨o, ho', rfl⟩ := mem_head?_map ho
  rcases hhead o ho' with hat | ⟨hlocked, rfl⟩
  · exact syncAt_drop.mp hat
  · exact hsync hlocked

/-- The packets a scan returns. -/
theorem cutFrom_scan (locked : Bool) (data : Bytes) :
    CutFrom data (scan locked data).out locked := by
  induction locked, data using scan.induct with
  | case1 data h =>
    rw [scan_true_of_lt h]
    exact ⟨[], .nil, rfl, by simp⟩
  | case2 data h hsync ih =>
    have hle := not_lt.mp h
    obtain ⟨os, hos, hout, hhead⟩ := ih
    rw [scan_true_of_sync hle hsync, hout, ← packetsAt_cons]
    refine ⟨_, hos.cons hle hsync fun o ho ↦ ?_, rfl, ?_⟩
    · exact (hhead o ho).imp_right And.right
    · rintro o ho
      exact .inr ⟨rfl, (Option.some.inj ho).symm⟩
  | case3 data h hsync ih =>
    have hpos : 1 ≤ data.length := by simp only [packetSize] at h; omega
    rw [scan_true_of_loss (not_lt.mp h) hsync]
    exact ih.skip hpos (fun hlocked ↦ absurd hlocked Bool.false_ne_true) true
  | case4 locked data h hnone =>
    rw [Bool.not_eq_true] at h
    rw [h, scan_false_of_none hnone]
    exact ⟨[], .nil, rfl, by simp⟩
  | case5 locked data h j hsome ih =>
    rw [Bool.not_eq_true] at h
    rw [h, scan_false_of_some hsome]
    exact ih.skip (firstSync_lt_length hsome).le
      (fun _ ↦ (firstSync_eq_some_iff.mp hsome).1) false

/-! ## What is kept -/

/-- In lock less than a packet is kept; out of lock, a tail in which there is nothing to lock on. -/
theorem scan_rest (locked : Bool) (data : Bytes) :
    ((scan locked data).locked = true → (scan locked data).rest.length < packetSize) ∧
      ((scan locked data).locked = false → (scan locked data).rest.length ≤ keepSize ∧
        ∀ i, ¬SyncAt (scan locked data).rest i) := by
  induction locked, data using scan.induct with
  | case1 data h =>
    rw [scan_true_of_lt h]
    exact ⟨fun _ ↦ h, fun hlocked ↦ absurd hlocked.symm Bool.false_ne_true⟩
  | case2 data h hsync ih => rw [scan_true_of_sync (not_lt.mp h) hsync]; exact ih
  | case3 data h hsync ih => rw [scan_true_of_loss (not_lt.mp h) hsync]; exact ih
  | case4 locked data h hnone =>
    rw [Bool.not_eq_true] at h
    rw [h, scan_false_of_none hnone]
    refine ⟨fun hlocked ↦ absurd hlocked Bool.false_ne_true, fun _ ↦ ⟨?_, fun i hsync ↦ ?_⟩⟩
    · dsimp only
      rw [List.length_drop]
      omega
    · dsimp only at hsync
      rw [syncAt_drop] at hsync
      exact firstSync_eq_none_iff.mp hnone _ hsync
  | case5 locked data h j hsome ih =>
    rw [Bool.not_eq_true] at h
    rw [h, scan_false_of_some hsome]
    exact ih

namespace PacketAligner

/-- **Soundness on any input.** After any calls on a fresh aligner: in lock it keeps less than a
packet, and out of lock at most `752` bytes without a sync position; what it has returned are
packets cut out of the stream at `PacketOffsets`, the first of them at a sync position; and the next
call, whatever it is fed, returns whole packets. -/
theorem feed_sound (chunks : List Bytes) :
    ∃ final out, feedAll feed {} chunks = .ok (final, out) ∧
      (final.locked = true → final.pending.length < packetSize) ∧
      (final.locked = false →
        final.pending.length ≤ keepSize ∧ ∀ i, ¬SyncAt final.pending i) ∧
      (∃ os, PacketOffsets chunks.flatten os ∧ out = packetsAt chunks.flatten os ∧
        ∀ o ∈ os.head?, SyncAt chunks.flatten o) ∧
      ∀ chunk, ∃ next more, final.feed chunk = .ok (next, more) ∧ packetSize ∣ more.length := by
  obtain ⟨hlocked, hsearching⟩ := scan_rest false chunks.flatten
  obtain ⟨os, hos, hout, hhead⟩ := cutFrom_scan false chunks.flatten
  refine ⟨_, _, feedAll_feed chunks, hlocked, hsearching, ⟨os, hos, hout, fun o ho ↦ ?_⟩,
    fun chunk ↦ ⟨_, _, feed_eq _ chunk, aligned_absorb _ chunk⟩⟩
  exact (hhead o ho).resolve_right fun h ↦ absurd h.1 Bool.false_ne_true

end PacketAligner

end Recdyud
