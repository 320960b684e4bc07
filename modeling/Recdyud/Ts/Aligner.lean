import Recdyud.Lib.Stage
import Recdyud.Ts.Sync

/-!
# Packet alignment

`PacketAligner.feed` cuts an arbitrary byte stream into sync-aligned packets. Its loop works on
positions of one buffer, alternates between searching and cutting, and cuts whole runs of packets
at once.

The abstract counterpart is `scan`, which reads a suffix of the stream one packet at a time and
keeps no positions: searching, it jumps to the first sync position or keeps a tail; locked, it
emits one packet or notices the loss. `feedLoop_eq` says that the loop computes `scan`, whatever
position it stands at, and `scan_append` that scanning may be interrupted anywhere. Chunk
independence of the aligner is the two together.

## What is kept between calls

A search that fails keeps the last `752` bytes. Every dropped position has its four sync bytes in
range, so it stays rejected whatever arrives next — this is `firstSync_eq_map_drop` — and no
candidate is hidden by the cut.
-/

namespace Recdyud

/-! ## The aligner -/

/-- Cuts an arbitrary byte stream into whole, sync-aligned TS packets. -/
structure PacketAligner where
  pending : Bytes := []
  locked : Bool := false
  syncLosses : ℕ := 0
  skippedBytes : ℕ := 0
  deriving DecidableEq, Repr

namespace PacketAligner

/-- `PacketAligner.reset`; the counters are kept. -/
def reset (self : PacketAligner) : PacketAligner :=
  { self with pending := [], locked := false }

/-- The variables of the `while True` loop of `feed`. -/
structure Loop where
  self : PacketAligner
  pos : ℕ
  out : List Bytes

/-! ### The loop body -/

/-- The head of the loop body: search for alignment unless locked. `inl` is the `break`. -/
def acquire (data : Bytes) (l : Loop) : Except IndexError (Loop ⊕ Loop) := do
  if l.self.locked then
    return .inr l
  match ← findSync data l.pos with
  | none =>
    let keep := max l.pos (data.length - packetSize * syncConfirm)
    return .inl { l with
      self := { l.self with skippedBytes := l.self.skippedBytes + (keep - l.pos) }
      pos := keep }
  | some found =>
    return .inr { l with
      self := { l.self with
        skippedBytes := l.self.skippedBytes + (found - l.pos)
        locked := true }
      pos := found }

/-- `data[pos : pos + count * PACKET_SIZE : PACKET_SIZE]` -/
def heads (data : Bytes) (pos count : ℕ) : Bytes :=
  (List.range count).filterMap fun i ↦ data[pos + i * packetSize]?

/-- `if good:` append the run of `good` packets to `out` and step over it. -/
def emit (data : Bytes) (l : Loop) (good : ℕ) : Loop :=
  if good = 0 then l
  else { l with
    out := l.out ++ [slice data l.pos (l.pos + good * packetSize)]
    pos := l.pos + good * packetSize }

@[simp] theorem emit_self (data : Bytes) (l : Loop) (good : ℕ) :
    (emit data l good).self = l.self := by
  rw [emit]; split <;> rfl

@[simp] theorem emit_pos (data : Bytes) (l : Loop) (good : ℕ) :
    (emit data l good).pos = l.pos + good * packetSize := by
  rw [emit]
  split
  · rename_i h; rw [h, Nat.zero_mul, Nat.add_zero]
  · rfl

theorem emit_out_flatten (data : Bytes) (l : Loop) (good : ℕ) :
    (emit data l good).out.flatten
      = l.out.flatten ++ (data.drop l.pos).take (good * packetSize) := by
  rw [emit]
  split
  · rename_i h; rw [h, Nat.zero_mul, List.take_zero, List.append_nil]
  · simp [slice_add]

/-- Number of packets with a good sync byte at the head of a run. -/
def goodCount (heads : Bytes) (count : ℕ) : ℕ :=
  if heads.count syncByte = count then count else heads.findIdx (· != syncByte)

/-- The rest of the loop body: cut the run of good packets. `inl` is the `break`, `inr` the next
turn of the loop after a lost sync. -/
def cut (data : Bytes) (l : Loop) : Loop ⊕ Loop :=
  let count := (data.length - l.pos) / packetSize
  if count = 0 then
    .inl l
  else
    let good := goodCount (heads data l.pos count) count
    let l := emit data l good
    if good = count then
      .inl l
    else
      -- the bad head is stepped over, and counted nowhere
      .inr { l with
        self := { l.self with locked := false, syncLosses := l.self.syncLosses + 1 }
        pos := l.pos + 1 }

/-- One turn of the `while True` loop. -/
def feedStep (data : Bytes) (l : Loop) : Except IndexError (Loop ⊕ Loop) := do
  match ← acquire data l with
  | .inl l => return .inl l
  | .inr l => return cut data l

/-! ### What one turn does -/

theorem heads_eq_map {data : Bytes} {pos count : ℕ} (h : pos + count * packetSize ≤ data.length) :
    heads data pos count = (List.range count).map fun i ↦ data.getD (pos + i * packetSize) 0 := by
  rw [heads, ← List.filterMap_eq_map]
  refine List.filterMap_congr fun i hi ↦ ?_
  have hlt : pos + i * packetSize < data.length := by
    have hi := List.mem_range.mp hi
    have : i * packetSize < count * packetSize := Nat.mul_lt_mul_of_pos_right hi (by decide)
    omega
  rw [List.getElem?_eq_getElem hlt, Function.comp_apply, List.getD_eq_getElem _ _ hlt]

/-- The two ways of finding the length of the run agree. -/
theorem goodCount_eq_findIdx {heads : Bytes} :
    goodCount heads heads.length = heads.findIdx (· != syncByte) := by
  rw [goodCount]
  split
  · rename_i h
    refine (List.findIdx_eq_length.mpr fun b hb ↦ ?_).symm
    simpa using (List.count_eq_length.mp h b hb).symm
  · rfl

/-- What `goodCount` finds: the heads before it are sync bytes, the one at it is not. -/
theorem goodCount_spec {data : Bytes} {pos count : ℕ}
    (h : pos + count * packetSize ≤ data.length) :
    goodCount (heads data pos count) count ≤ count ∧
      (∀ i < goodCount (heads data pos count) count,
        data[pos + i * packetSize]? = some syncByte) ∧
      (goodCount (heads data pos count) count < count →
        data[pos + goodCount (heads data pos count) count * packetSize]? ≠ some syncByte) := by
  have hmap := heads_eq_map h
  have hlen : (heads data pos count).length = count := by rw [hmap]; simp
  have hidx : goodCount (heads data pos count) (heads data pos count).length =
      (heads data pos count).findIdx (· != syncByte) := goodCount_eq_findIdx
  rw [hlen] at hidx
  have hget : ∀ i (hi : i < (heads data pos count).length),
      data[pos + i * packetSize]? = some (heads data pos count)[i] := by
    intro i hi
    have hi' : i < count := hlen ▸ hi
    have hlt : pos + i * packetSize < data.length := by
      have : i * packetSize < count * packetSize := Nat.mul_lt_mul_of_pos_right hi' (by decide)
      omega
    simp only [hmap, List.getElem_map, List.getElem_range, List.getD_eq_getElem _ _ hlt,
      List.getElem?_eq_getElem hlt]
  rw [hidx]
  have hle : (heads data pos count).findIdx (· != syncByte) ≤ (heads data pos count).length :=
    List.findIdx_le_length
  refine ⟨hle.trans_eq hlen, fun i hi ↦ ?_, fun hlt ↦ ?_⟩
  · have hi' : i < (heads data pos count).length := lt_of_lt_of_le hi hle
    have hnot := List.not_of_lt_findIdx hi
    rw [hget i hi']
    simpa using hnot
  · have hlt' : (heads data pos count).findIdx (· != syncByte) < (heads data pos count).length :=
      hlen.symm ▸ hlt
    have hbad := List.findIdx_getElem (w := hlt')
    rw [hget _ hlt']
    simpa using hbad

/-- The three outcomes of the head of the loop body. -/
theorem acquire_of_locked {data : Bytes} {l : Loop} (h : l.self.locked = true) :
    acquire data l = .ok (.inr l) := by
  rw [acquire, if_pos h]
  rfl

/-- The search has failed: all but a tail is skipped. -/
def giveUp (data : Bytes) (l : Loop) : Loop :=
  let keep := max l.pos (data.length - packetSize * syncConfirm)
  { l with
    self := { l.self with skippedBytes := l.self.skippedBytes + (keep - l.pos) }
    pos := keep }

/-- The search has found sync `j` bytes further on. -/
def lockAt (l : Loop) (j : ℕ) : Loop :=
  { l with
    self := { l.self with skippedBytes := l.self.skippedBytes + j, locked := true }
    pos := l.pos + j }

theorem acquire_of_none {data : Bytes} {l : Loop} (h : l.self.locked = false)
    (hf : firstSync (data.drop l.pos) = none) : acquire data l = .ok (.inl (giveUp data l)) := by
  rw [acquire, if_neg (by simp [h]), findSync_eq, hf]
  rfl

theorem acquire_of_some {data : Bytes} {l : Loop} {j : ℕ} (h : l.self.locked = false)
    (hf : firstSync (data.drop l.pos) = some j) : acquire data l = .ok (.inr (lockAt l j)) := by
  rw [acquire, if_neg (by simp [h]), findSync_eq, hf]
  simp only [Option.map_some]
  refine congrArg (fun n ↦ Except.ok (Sum.inr { l with
    self := { l.self with skippedBytes := l.self.skippedBytes + n, locked := true }
    pos := l.pos + j })) ?_
  exact Nat.add_sub_cancel_left _ _

/-- What a lost sync looks like: a run of good packets, then one whole packet with a bad head. -/
theorem cut_eq_inr {data : Bytes} {l l' : Loop} (h : cut data l = .inr l') :
    ∃ good, l.pos + good * packetSize + packetSize ≤ data.length ∧
      (∀ i < good, data[l.pos + i * packetSize]? = some syncByte) ∧
      data[l.pos + good * packetSize]? ≠ some syncByte ∧
      l' = { emit data l good with
        self := { l.self with locked := false, syncLosses := l.self.syncLosses + 1 }
        pos := l.pos + good * packetSize + 1 } := by
  have hdiv := Nat.div_add_mod (data.length - l.pos) packetSize
  rw [cut] at h
  split at h
  · cases h
  · rename_i hzero
    dsimp only at h
    split at h
    · cases h
    · rename_i hgood
      set count := (data.length - l.pos) / packetSize
      have hcount : l.pos + count * packetSize ≤ data.length := by
        rw [mul_comm]
        have : 0 < packetSize * count := Nat.mul_pos (by decide) (Nat.pos_of_ne_zero hzero)
        omega
      obtain ⟨hle, hrun, hbad⟩ := goodCount_spec hcount
      set good := goodCount (heads data l.pos count) count
      have hlt : good < count := lt_of_le_of_ne hle hgood
      have hnext : (good + 1) * packetSize ≤ count * packetSize := Nat.mul_le_mul_right _ hlt
      rw [Nat.add_mul, Nat.one_mul] at hnext
      refine ⟨good, by omega, hrun, hbad hlt, ?_⟩
      rw [← Sum.inr.inj h]
      simp only [emit_self, emit_pos]

/-- A turn that goes round again moves on by at least one byte, inside the buffer. -/
theorem pos_of_feedStep_eq_inr {data : Bytes} {l l' : Loop}
    (h : feedStep data l = .ok (.inr l')) : l.pos < l'.pos ∧ l'.pos ≤ data.length := by
  have hcut : ∀ m, l.pos ≤ m.pos → cut data m = .inr l' →
      l.pos < l'.pos ∧ l'.pos ≤ data.length := by
    intro m hle hm
    obtain ⟨good, hlen, -, -, rfl⟩ := cut_eq_inr hm
    simp only [packetSize] at hlen ⊢
    omega
  rw [feedStep] at h
  cases hlocked : l.self.locked with
  | true =>
    rw [acquire_of_locked hlocked] at h
    exact hcut l le_rfl (Except.ok.inj h)
  | false =>
    cases hf : firstSync (data.drop l.pos) with
    | none =>
      rw [acquire_of_none hlocked hf] at h
      cases h
    | some j =>
      rw [acquire_of_some hlocked hf] at h
      exact hcut _ (Nat.le_add_right _ _) (Except.ok.inj h)

/-! ### The loop -/

/-- The `while True` loop of `feed`. -/
def feedLoop (data : Bytes) (l : Loop) : Except IndexError Loop :=
  match _h : feedStep data l with
  | .error e => .error e
  | .ok (.inl l') => .ok l'
  | .ok (.inr l') => feedLoop data l'
termination_by data.length - l.pos
decreasing_by
  have := pos_of_feedStep_eq_inr _h
  omega

/-- `PacketAligner.feed` -/
def feed (self : PacketAligner) (chunk : Bytes) : Except IndexError (PacketAligner × Bytes) := do
  let data := if self.pending.isEmpty then chunk else self.pending ++ chunk
  let l ← feedLoop data { self, pos := 0, out := [] }
  return ({ l.self with pending := data.drop l.pos }, l.out.flatten)

end PacketAligner

/-! ## Scanning -/

/-- What one pass over a piece of the stream comes to. -/
@[ext] structure Scan where
  /-- The packets found, concatenated. -/
  out : Bytes
  losses : ℕ
  skipped : ℕ
  locked : Bool
  /-- What has to be looked at again when more bytes arrive. -/
  rest : Bytes

/-- Number of bytes a failed search leaves behind. -/
def keepSize : ℕ := packetSize * syncConfirm

/-- Read `data` one packet at a time. -/
def scan (locked : Bool) (data : Bytes) : Scan :=
  if locked then
    if data.length < packetSize then
      { out := [], losses := 0, skipped := 0, locked := true, rest := data }
    else if data[0]? = some syncByte then
      let r := scan true (data.drop packetSize)
      { r with out := data.take packetSize ++ r.out }
    else
      let r := scan false (data.drop 1)
      { r with losses := r.losses + 1 }
  else
    match firstSync data with
    | none =>
      { out := []
        losses := 0
        skipped := data.length - keepSize
        locked := false
        rest := data.drop (data.length - keepSize) }
    | some j =>
      let r := scan true (data.drop j)
      { r with skipped := r.skipped + j }
termination_by 2 * data.length + if locked then 0 else 1
decreasing_by
  · simp only [packetSize, List.length_drop] at *
    grind
  · simp only [packetSize, List.length_drop] at *
    grind
  · simp only [List.length_drop] at *
    grind

theorem scan_true_of_lt {data : Bytes} (h : data.length < packetSize) :
    scan true data = { out := [], losses := 0, skipped := 0, locked := true, rest := data } := by
  rw [scan, if_pos rfl, if_pos h]

theorem scan_true_of_sync {data : Bytes} (h : packetSize ≤ data.length)
    (hb : data[0]? = some syncByte) :
    scan true data = { scan true (data.drop packetSize) with
      out := data.take packetSize ++ (scan true (data.drop packetSize)).out } := by
  rw [scan, if_pos rfl, if_neg (by omega), if_pos hb]

theorem scan_true_of_loss {data : Bytes} (h : packetSize ≤ data.length)
    (hb : data[0]? ≠ some syncByte) :
    scan true data = { scan false (data.drop 1) with
      losses := (scan false (data.drop 1)).losses + 1 } := by
  rw [scan, if_pos rfl, if_neg (by omega), if_neg hb]

theorem scan_false_of_none {data : Bytes} (h : firstSync data = none) :
    scan false data =
      { out := []
        losses := 0
        skipped := data.length - keepSize
        locked := false
        rest := data.drop (data.length - keepSize) } := by
  rw [scan, if_neg Bool.false_ne_true]
  split
  · rfl
  · rename_i hs
    rw [h] at hs
    cases hs

theorem scan_false_of_some {data : Bytes} {j : ℕ} (h : firstSync data = some j) :
    scan false data = { scan true (data.drop j) with
      skipped := (scan true (data.drop j)).skipped + j } := by
  rw [scan, if_neg Bool.false_ne_true]
  split
  · rename_i hs
    rw [h] at hs
    cases hs
  · rename_i i hs
    rw [h] at hs
    cases hs
    rfl

/-- Go on with `b` after a first pass. -/
def Scan.resume (r : Scan) (b : Bytes) : Scan :=
  let r' := scan r.locked (r.rest ++ b)
  { r' with
    out := r.out ++ r'.out
    losses := r.losses + r'.losses
    skipped := r.skipped + r'.skipped }

/-- A failed search may be taken up again from its tail: the bytes it dropped hide no match. -/
theorem scan_false_append_of_none {a : Bytes} (h : firstSync a = none) (b : Bytes) :
    scan false (a ++ b) = (scan false a).resume b := by
  set n := a.length - keepSize with hn
  have hlen : n ≤ a.length := Nat.sub_le _ _
  have hdrop : (a ++ b).drop n = a.drop n ++ b := List.drop_append_of_le_length hlen
  -- all four heads of a position dropped lie inside `a`, so `b` cannot make it a match
  have hnot : ∀ i < n, ¬SyncAt (a ++ b) i := by
    intro i hi hsync
    refine firstSync_eq_none_iff.mp h i ((syncAt_append ?_).mp hsync)
    simp only [keepSize, packetSize, syncConfirm] at hn ⊢
    omega
  have hfirst := firstSync_eq_map_drop hnot
  rw [hdrop] at hfirst
  rw [scan_false_of_none h, ← hn, Scan.resume]
  dsimp only
  cases hb : firstSync (a.drop n ++ b) with
  | none =>
    rw [hb, Option.map_none] at hfirst
    have hskip : (a ++ b).length - keepSize = n + ((a.drop n ++ b).length - keepSize) := by
      simp only [List.length_append, List.length_drop]
      omega
    rw [scan_false_of_none hfirst, scan_false_of_none hb, hskip, ← List.drop_drop, hdrop]
    simp
  | some j =>
    rw [hb, Option.map_some] at hfirst
    rw [scan_false_of_some hfirst, scan_false_of_some hb, ← List.drop_drop, hdrop]
    ext1 <;> simp
    omega

/-- **Scanning may be interrupted anywhere.** -/
theorem scan_append (locked : Bool) (a b : Bytes) :
    scan locked (a ++ b) = (scan locked a).resume b := by
  induction locked, a using scan.induct with
  | case1 a hlt =>
    rw [scan_true_of_lt hlt]
    simp [Scan.resume]
  | case2 a hlt hsync ih =>
    -- a whole packet inside `a`
    have hge : packetSize ≤ a.length := by omega
    have hhead : (a ++ b)[0]? = some syncByte := by
      rw [List.getElem?_append_left (by simp only [packetSize] at hge; omega), hsync]
    have hlen : packetSize ≤ (a ++ b).length := by rw [List.length_append]; omega
    rw [scan_true_of_sync hlen hhead, scan_true_of_sync hge hsync,
      List.drop_append_of_le_length hge, List.take_append_of_le_length hge, ih]
    simp [Scan.resume]
  | case3 a hlt hsync ih =>
    -- a bad head, with a whole packet of bytes behind it inside `a`
    have hge : packetSize ≤ a.length := by omega
    have hpos : 0 < a.length := by simp only [packetSize] at hge; omega
    have hhead : (a ++ b)[0]? ≠ some syncByte := by
      rw [List.getElem?_append_left hpos]; exact hsync
    have hlen : packetSize ≤ (a ++ b).length := by rw [List.length_append]; omega
    rw [scan_true_of_loss hlen hhead, scan_true_of_loss hge hsync,
      List.drop_append_of_le_length hpos, ih]
    ext1 <;> simp [Scan.resume, Nat.add_right_comm]
  | case4 locked a hlocked h =>
    obtain rfl : locked = false := by simpa using hlocked
    exact scan_false_append_of_none h b
  | case5 locked a hlocked j h ih =>
    -- the first match in `a` is the first in `a ++ b`
    obtain rfl : locked = false := by simpa using hlocked
    have hle : j ≤ a.length := (firstSync_lt_length h).le
    rw [scan_false_of_some (firstSync_append_of_some h b), scan_false_of_some h,
      List.drop_append_of_le_length hle, ih]
    ext1 <;> simp [Scan.resume, Nat.add_right_comm]

/-- A run of good packets is emitted whole. -/
theorem scan_true_of_run {data : Bytes} {n : ℕ} (hlen : n * packetSize ≤ data.length)
    (h : ∀ i < n, data[i * packetSize]? = some syncByte) :
    scan true data = { scan true (data.drop (n * packetSize)) with
      out := data.take (n * packetSize) ++ (scan true (data.drop (n * packetSize))).out } := by
  induction n generalizing data with
  | zero => simp
  | succ n ih =>
    have hsucc : (n + 1) * packetSize = packetSize + n * packetSize := by ring
    rw [hsucc] at hlen ⊢
    have hlen' : n * packetSize ≤ (data.drop packetSize).length := by
      rw [List.length_drop]; omega
    have h' : ∀ i < n, (data.drop packetSize)[i * packetSize]? = some syncByte := by
      intro i hi
      rw [List.getElem?_drop, ← h (i + 1) (by omega)]
      congr 1
      ring
    rw [scan_true_of_sync (by omega) (by simpa using h 0 (by omega)), ih hlen' h', List.drop_drop,
      List.take_add]
    simp

/-! ## The loop computes the scan -/

namespace PacketAligner

/-- `l'` is where the loop ends when it is entered at `l`. -/
structure Ends (data : Bytes) (l l' : Loop) (r : Scan) : Prop where
  self : l'.self = { l.self with
    locked := r.locked
    syncLosses := l.self.syncLosses + r.losses
    skippedBytes := l.self.skippedBytes + r.skipped }
  rest : data.drop l'.pos = r.rest
  out : l'.out.flatten = l.out.flatten ++ r.out

/-- When the cut breaks, the loop has reached the end of the scan. -/
theorem ends_of_cut_eq_inl {data : Bytes} {l l' : Loop} (hl : l.pos ≤ data.length)
    (hlocked : l.self.locked = true) (h : cut data l = .inl l') :
    Ends data l l' (scan true (data.drop l.pos)) := by
  have hself : { l.self with locked := true } = l.self := by rw [← hlocked]
  have hmod := Nat.mod_lt (data.length - l.pos) (y := packetSize) (by decide)
  have hdiv := Nat.div_add_mod (data.length - l.pos) packetSize
  rw [cut] at h
  split at h
  · -- not even one packet
    rename_i hcount
    cases h
    rw [hcount, Nat.mul_zero, Nat.zero_add] at hdiv
    have hlt : (data.drop l.pos).length < packetSize := by rw [List.length_drop]; omega
    rw [scan_true_of_lt hlt]
    exact ⟨by simp [hself], rfl, by simp⟩
  · -- every whole packet is good
    dsimp only at h
    split at h
    · rename_i hgood
      rw [hgood] at h
      cases h
      set count := (data.length - l.pos) / packetSize
      have hcount : count * packetSize ≤ (data.drop l.pos).length := by
        rw [List.length_drop, mul_comm]; omega
      have hfits : l.pos + count * packetSize ≤ data.length := by
        rw [List.length_drop] at hcount; omega
      have hspec := goodCount_spec hfits
      rw [hgood] at hspec
      have hrest : (data.drop (l.pos + count * packetSize)).length < packetSize := by
        rw [List.length_drop, mul_comm]; omega
      rw [scan_true_of_run hcount fun i hi ↦ by rw [List.getElem?_drop]; exact hspec.2.1 i hi,
        List.drop_drop, scan_true_of_lt hrest]
      exact ⟨by simp [hself], by simp, by simp [emit_out_flatten]⟩
    · cases h

/-- When the cut goes round again, the scan has lost sync at the same byte. -/
theorem ends_of_cut_eq_inr {data : Bytes} {l l' l'' : Loop} (h : cut data l = .inr l')
    (hends : Ends data l' l'' (scan false (data.drop l'.pos))) :
    Ends data l l'' (scan true (data.drop l.pos)) := by
  obtain ⟨good, hlen, hrun, hbad, rfl⟩ := cut_eq_inr h
  have hrun' : ∀ i < good, (data.drop l.pos)[i * packetSize]? = some syncByte := by
    intro i hi
    rw [List.getElem?_drop]
    exact hrun i hi
  have hhead : (data.drop (l.pos + good * packetSize))[0]? ≠ some syncByte := by
    rw [List.getElem?_drop]
    exact hbad
  rw [scan_true_of_run (by rw [List.length_drop]; omega) hrun', List.drop_drop,
    scan_true_of_loss (by rw [List.length_drop]; omega) hhead, List.drop_drop]
  obtain ⟨hself, hrest, hout⟩ := hends
  simp only [emit_out_flatten] at hself hrest hout
  refine ⟨?_, hrest, ?_⟩
  · rw [hself]
    simp only [PacketAligner.mk.injEq, true_and, and_true]
    omega
  · rw [hout]
    simp

theorem ends_of_none {data : Bytes} {l : Loop} (hlocked : l.self.locked = false)
    (hf : firstSync (data.drop l.pos) = none) :
    Ends data l (giveUp data l) (scan false (data.drop l.pos)) := by
  have hskip : max l.pos (data.length - packetSize * syncConfirm) - l.pos
      = (data.drop l.pos).length - keepSize := by
    rw [List.length_drop, keepSize]
    omega
  rw [scan_false_of_none hf, ← hskip, List.drop_drop, Nat.add_sub_cancel' (le_max_left _ _)]
  exact ⟨by simp [giveUp, hlocked], rfl, by simp [giveUp]⟩

theorem ends_of_some {data : Bytes} {l l' : Loop} {j : ℕ}
    (hf : firstSync (data.drop l.pos) = some j)
    (hends : Ends data (lockAt l j) l' (scan true (data.drop (lockAt l j).pos))) :
    Ends data l l' (scan false (data.drop l.pos)) := by
  obtain ⟨hself, hrest, hout⟩ := hends
  rw [scan_false_of_some hf, List.drop_drop]
  refine ⟨?_, hrest, hout⟩
  rw [hself]
  simp only [lockAt, PacketAligner.mk.injEq, true_and]
  omega

/-- **The loop computes the scan** of what lies behind its position. -/
theorem feedLoop_eq (data : Bytes) (l : Loop) (hl : l.pos ≤ data.length) :
    ∃ l', feedLoop data l = .ok l' ∧ Ends data l l' (scan l.self.locked (data.drop l.pos)) := by
  induction hn : data.length - l.pos using Nat.strong_induction_on generalizing l with
  | _ n ih =>
    -- a turn that gets as far as cutting: it breaks, or the loop goes on from further ahead
    have hcut : ∀ m : Loop, m.self.locked = true → m.pos ≤ data.length →
        feedStep data l = .ok (cut data m) →
        ∃ l', feedLoop data l = .ok l' ∧ Ends data m l' (scan true (data.drop m.pos)) := by
      intro m hm hmlen hstep
      cases hc : cut data m with
      | inl l' =>
        rw [hc] at hstep
        exact ⟨l', by rw [feedLoop, hstep], ends_of_cut_eq_inl hmlen hm hc⟩
      | inr m' =>
        rw [hc] at hstep
        obtain ⟨hlt, hle⟩ := pos_of_feedStep_eq_inr hstep
        obtain ⟨l', hloop, hends⟩ := ih (data.length - m'.pos) (by omega) m' hle rfl
        have hunlocked : m'.self.locked = false := by
          obtain ⟨good, -, -, -, rfl⟩ := cut_eq_inr hc
          rfl
        rw [hunlocked] at hends
        exact ⟨l', by rw [feedLoop, hstep]; exact hloop, ends_of_cut_eq_inr hc hends⟩
    cases hlocked : l.self.locked with
    | true =>
      refine hcut l hlocked hl ?_
      rw [feedStep, acquire_of_locked hlocked]
      rfl
    | false =>
      cases hf : firstSync (data.drop l.pos) with
      | none =>
        have hacq := acquire_of_none hlocked hf
        exact ⟨_, by rw [feedLoop, feedStep, hacq]; rfl, ends_of_none hlocked hf⟩
      | some j =>
        have hacq := acquire_of_some hlocked hf
        have hle : l.pos + j ≤ data.length := by
          have hj := firstSync_lt_length hf
          rw [List.length_drop] at hj
          omega
        obtain ⟨l', hloop, hends⟩ := hcut (lockAt l j) rfl hle (by rw [feedStep, hacq]; rfl)
        exact ⟨l', hloop, ends_of_some hf hends⟩

/-! ## Chunk independence -/

/-- The abstract form of `feed`: scan the pending bytes and the chunk. -/
def absorb : Stage PacketAligner UInt8 UInt8 := fun self chunk ↦
  let r := scan self.locked (self.pending ++ chunk)
  ({ pending := r.rest
     locked := r.locked
     syncLosses := self.syncLosses + r.losses
     skippedBytes := self.skippedBytes + r.skipped }, r.out)

/-- `feed` raises nothing and is `absorb`. -/
theorem feed_eq (self : PacketAligner) (chunk : Bytes) :
    self.feed chunk = .ok (self.absorb chunk) := by
  have hdata : (if self.pending.isEmpty then chunk else self.pending ++ chunk)
      = self.pending ++ chunk := by
    cases hp : self.pending <;> rfl
  obtain ⟨l', hloop, hself, hrest, hout⟩ :=
    feedLoop_eq (self.pending ++ chunk) { self, pos := 0, out := [] } (Nat.zero_le _)
  rw [List.drop_zero] at hself hrest hout
  dsimp only at hself hrest hout
  rw [List.flatten_nil, List.nil_append] at hout
  have hok : self.feed chunk = .ok ({ l'.self with
      pending := (self.pending ++ chunk).drop l'.pos }, l'.out.flatten) := by
    rw [feed, hdata]
    simp only [hloop]
    rfl
  rw [hok, hself, hrest, hout]
  rfl

theorem absorb_incremental : absorb.Incremental fun _ ↦ True where
  state := by
    intro self a b _ _
    have happ := scan_append self.locked (self.pending ++ a) b
    rw [List.append_assoc] at happ
    simp only [absorb, happ]
    simp only [Scan.resume, Nat.add_assoc]
  output := by
    intro self a b _ _
    have happ := scan_append self.locked (self.pending ++ a) b
    rw [List.append_assoc] at happ
    simp only [absorb, happ]
    simp only [Scan.resume]

/-- A fresh aligner has nothing to say about no bytes. -/
theorem absorb_nil_fresh : absorb {} [] = ({}, []) := by
  have hnone : firstSync [] = none := rfl
  simp only [absorb, List.append_nil, scan_false_of_none hnone]
  rfl

/-- A fresh aligner fed chunk by chunk scans the whole stream. -/
theorem feedAll_feed (chunks : List Bytes) :
    feedAll feed {} chunks = .ok (absorb {} chunks.flatten) := by
  rw [← absorb_incremental.runs_eq trivial (fun _ _ _ _ ↦ trivial) absorb_nil_fresh chunks
    fun _ _ ↦ trivial]
  exact feedAll_eq_pure (I := fun _ ↦ True) (fun self _ ↦ feed_eq self) (fun _ _ _ ↦ trivial)
    trivial chunks

/-- **Independence of the cut.** A fresh aligner fed chunk by chunk ends in the same state and
returns the same bytes in total as one fed all at once, and in any state two calls of `feed` are
worth one on the concatenated input. No call raises. -/
theorem feed_chunk_independent :
    (∀ chunks : List Bytes, ∃ final out,
      feedAll feed {} chunks = .ok (final, out) ∧ feed {} chunks.flatten = .ok (final, out)) ∧
    ∀ (self : PacketAligner) (a b : Bytes), ∃ mid final outa outb,
      self.feed a = .ok (mid, outa) ∧ mid.feed b = .ok (final, outb) ∧
        self.feed (a ++ b) = .ok (final, outa ++ outb) := by
  constructor
  · intro chunks
    exact ⟨_, _, feedAll_feed chunks, feed_eq {} chunks.flatten⟩
  · intro self a b
    refine ⟨_, _, _, _, feed_eq self a, feed_eq _ b, ?_⟩
    rw [feed_eq]
    exact congrArg Except.ok (Prod.ext (absorb_incremental.state self a b trivial trivial)
      (absorb_incremental.output self a b trivial trivial))

end PacketAligner

end Recdyud
