import Recdyud.Py

/-!
# Searching for packet alignment

`_find_sync` looks for the first position from which four sync bytes follow at distance one packet.
It mixes `bytes.find` with an exclusive end bound and a manual restart index; here it is embedded
with every index expression fallible, and shown to be the exact first-match search `firstSync` on
the suffix it was started on. Everything about alignment is then said with `firstSync`.
-/

namespace Recdyud

/-! ## Constants -/

def packetSize : ℕ := 188

def syncByte : UInt8 := 0x47

/-- Number of consecutive sync bytes required to (re)acquire packet alignment. -/
def syncConfirm : ℕ := 4

/-! ## The search -/

/-- `all(data[i + k * PACKET_SIZE] == SYNC_BYTE for k in range(1, SYNC_CONFIRM))`, which stops at
the first byte that differs. -/
def confirmed (data : Bytes) (i : ℕ) : Except IndexError Bool :=
  (List.range' 1 (syncConfirm - 1)).allM fun k ↦ do
    return (← index data (i + k * packetSize)) == syncByte

/-- The `while i < end` loop of `_find_sync`. -/
def findSyncLoop (data : Bytes) (stop i : ℕ) : Except IndexError (Option ℕ) :=
  if i < stop then
    match h : find data syncByte i stop with
    | none => .ok none
    | some j => do
      if ← confirmed data j then
        return some j
      findSyncLoop data stop (j + 1)
  else
    .ok none
termination_by stop - i
decreasing_by
  have hj := find_eq_some_iff.mp h
  omega

/-- `_find_sync(data, start)`, with `none` for `-1`. A negative `end` is the same as `end = 0`:
the loop is not entered. -/
def findSync (data : Bytes) (start : ℕ) : Except IndexError (Option ℕ) :=
  findSyncLoop data (data.length - packetSize * (syncConfirm - 1)) start

/-! ## What it finds -/

/-- Four in-range sync bytes at distance one packet, the first one at `i`. -/
def SyncAt (data : Bytes) (i : ℕ) : Prop :=
  ∀ k < syncConfirm, data[i + k * packetSize]? = some syncByte

instance (data : Bytes) (i : ℕ) : Decidable (SyncAt data i) := by
  unfold SyncAt; infer_instance

theorem SyncAt.lt_length {data : Bytes} {i : ℕ} (h : SyncAt data i) :
    i + packetSize * (syncConfirm - 1) < data.length := by
  have hlast := h (syncConfirm - 1) (by decide)
  rw [mul_comm]
  exact (List.getElem?_eq_some_iff.mp hlast).1

theorem SyncAt.head {data : Bytes} {i : ℕ} (h : SyncAt data i) : data[i]? = some syncByte := by
  simpa using h 0 (by decide)

theorem syncAt_drop {data : Bytes} {n i : ℕ} : SyncAt (data.drop n) i ↔ SyncAt data (n + i) := by
  simp only [SyncAt, List.getElem?_drop, Nat.add_assoc]

/-- Whether `i` is a sync position is settled by the bytes it looks at. -/
theorem syncAt_append {a b : Bytes} {i : ℕ}
    (h : i + packetSize * (syncConfirm - 1) < a.length) : SyncAt (a ++ b) i ↔ SyncAt a i := by
  refine forall₂_congr fun k hk ↦ ?_
  have hlt : i + k * packetSize < a.length := by
    simp only [packetSize, syncConfirm] at h hk ⊢
    omega
  rw [List.getElem?_append_left hlt]

theorem SyncAt.append {a : Bytes} {i : ℕ} (h : SyncAt a i) (b : Bytes) : SyncAt (a ++ b) i :=
  (syncAt_append h.lt_length).mpr h

/-- The first sync position of `data`. -/
def firstSync (data : Bytes) : Option ℕ :=
  (List.range data.length).find? fun i ↦ decide (SyncAt data i)

theorem firstSync_eq_some_iff {data : Bytes} {i : ℕ} :
    firstSync data = some i ↔ SyncAt data i ∧ ∀ j < i, ¬SyncAt data j := by
  rw [firstSync, List.find?_range_eq_some]
  simp only [decide_eq_true_eq, List.mem_range, Bool.not_eq_true', decide_eq_false_iff_not]
  constructor
  · rintro ⟨h, -, hmin⟩
    exact ⟨h, hmin⟩
  · rintro ⟨h, hmin⟩
    exact ⟨h, by have := h.lt_length; omega, hmin⟩

theorem firstSync_eq_none_iff {data : Bytes} : firstSync data = none ↔ ∀ i, ¬SyncAt data i := by
  rw [firstSync, List.find?_range_eq_none]
  simp only [Bool.not_eq_true', decide_eq_false_iff_not]
  constructor
  · intro h i hi
    exact h i (by have := hi.lt_length; omega) hi
  · exact fun h i _ ↦ h i

theorem firstSync_lt_length {data : Bytes} {i : ℕ} (h : firstSync data = some i) :
    i < data.length := by
  have := (firstSync_eq_some_iff.mp h).1.lt_length
  omega

/-- A match stays the first one when more bytes arrive. -/
theorem firstSync_append_of_some {a : Bytes} {i : ℕ} (h : firstSync a = some i) (b : Bytes) :
    firstSync (a ++ b) = some i := by
  obtain ⟨hi, hmin⟩ := firstSync_eq_some_iff.mp h
  refine firstSync_eq_some_iff.mpr ⟨hi.append b, fun j hj hsync ↦ hmin j hj ?_⟩
  refine (syncAt_append ?_).mp hsync
  have := hi.lt_length
  omega

/-- Dropping positions that are known not to match shifts the search. -/
theorem firstSync_eq_map_drop {data : Bytes} {n : ℕ} (h : ∀ i < n, ¬SyncAt data i) :
    firstSync data = (firstSync (data.drop n)).map (n + ·) := by
  cases hd : firstSync (data.drop n) with
  | none =>
    rw [Option.map_none, firstSync_eq_none_iff]
    intro i hi
    obtain hlt | ⟨j, rfl⟩ : i < n ∨ ∃ j, i = n + j := by
      by_cases hlt : i < n
      · exact .inl hlt
      · exact .inr ⟨i - n, by omega⟩
    · exact h i hlt hi
    · exact firstSync_eq_none_iff.mp hd j (syncAt_drop.mpr hi)
  | some j =>
    obtain ⟨hj, hmin⟩ := firstSync_eq_some_iff.mp hd
    refine firstSync_eq_some_iff.mpr ⟨syncAt_drop.mp hj, fun i hi hsync ↦ ?_⟩
    change i < n + j at hi
    by_cases hlt : i < n
    · exact h i hlt hsync
    · refine hmin (i - n) (by omega) (syncAt_drop.mpr ?_)
      rwa [Nat.add_sub_cancel' (by omega)]

/-! ## The search is exact -/

theorem allM_eq_ok {α ε : Type} {f : α → Except ε Bool} {g : α → Bool} {l : List α}
    (h : ∀ a ∈ l, f a = .ok (g a)) : l.allM f = .ok (l.all g) := by
  induction l with
  | nil => rfl
  | cons a l ih =>
    rw [List.allM, h a List.mem_cons_self, List.all_cons]
    cases hga : g a with
    | false => rfl
    | true => exact ih fun b hb ↦ h b (List.mem_cons_of_mem _ hb)

/-- The three look-ahead bytes are read within bounds, and decide the match. -/
theorem confirmed_eq {data : Bytes} {i : ℕ}
    (h : i + packetSize * (syncConfirm - 1) < data.length) (hi : data[i]? = some syncByte) :
    confirmed data i = .ok (decide (SyncAt data i)) := by
  have hread : ∀ k ∈ List.range' 1 (syncConfirm - 1),
      (do return (← index data (i + k * packetSize)) == syncByte : Except IndexError Bool)
        = .ok (decide (data[i + k * packetSize]? = some syncByte)) := by
    intro k hk
    have hlt : i + k * packetSize < data.length := by
      simp only [List.mem_range'_1, packetSize, syncConfirm] at hk h ⊢
      omega
    rw [index_eq_ok hlt, List.getElem?_eq_getElem hlt]
    simp only [Option.some_inj]
    rfl
  rw [confirmed, allM_eq_ok hread]
  refine congrArg Except.ok (Bool.eq_iff_iff.mpr ?_)
  simp only [List.all_eq_true, decide_eq_true_eq, List.mem_range'_1]
  constructor
  · intro hk k hlt
    rcases Nat.eq_zero_or_pos k with rfl | hpos
    · simpa using hi
    · exact hk k ⟨hpos, by omega⟩
  · exact fun hk k hmem ↦ hk k (by omega)

section Candidate

variable {data : Bytes} {i j : ℕ}

/-- Without a sync byte in front of the end bound there is no sync position. -/
theorem firstSync_of_find_none
    (h : find data syncByte i (data.length - packetSize * (syncConfirm - 1)) = none) :
    firstSync (data.drop i) = none := by
  refine firstSync_eq_none_iff.mpr fun k hk ↦ ?_
  have hk := syncAt_drop.mp hk
  refine find_eq_none_iff.mp h (i + k) (by omega) ?_ hk.head
  have := hk.lt_length
  omega

/-- The first candidate, if it is confirmed. -/
theorem firstSync_of_confirmed (hij : i ≤ j)
    (hbefore : ∀ k < j - i, ¬SyncAt (data.drop i) k) (hsync : SyncAt data j) :
    firstSync (data.drop i) = some (j - i) := by
  refine firstSync_eq_some_iff.mpr ⟨syncAt_drop.mpr ?_, hbefore⟩
  rwa [Nat.add_sub_cancel' hij]

/-- If it is rejected, the search goes on one byte behind it. -/
theorem firstSync_of_rejected (hij : i ≤ j)
    (hbefore : ∀ k < j - i, ¬SyncAt (data.drop i) k) (hnot : ¬SyncAt data j) :
    (firstSync (data.drop i)).map (i + ·)
      = (firstSync (data.drop (j + 1))).map (j + 1 + ·) := by
  have hnone : ∀ k < j + 1 - i, ¬SyncAt (data.drop i) k := by
    intro k hk hsync
    rcases Nat.lt_or_ge k (j - i) with hlt | hge
    · exact hbefore k hlt hsync
    · obtain rfl : k = j - i := by omega
      rw [syncAt_drop, Nat.add_sub_cancel' hij] at hsync
      exact hnot hsync
  rw [firstSync_eq_map_drop hnone, List.drop_drop, Option.map_map,
    Nat.add_sub_cancel' (Nat.le_succ_of_le hij)]
  refine congrArg (Option.map · _) (funext fun k ↦ ?_)
  rw [Function.comp_apply, ← Nat.add_assoc, Nat.add_sub_cancel' (Nat.le_succ_of_le hij)]

end Candidate

theorem findSyncLoop_eq (data : Bytes) (i : ℕ) :
    findSyncLoop data (data.length - packetSize * (syncConfirm - 1)) i
      = .ok ((firstSync (data.drop i)).map (i + ·)) := by
  -- the loop runs upwards to the end bound, so the induction is on what is left of the range
  induction hn : data.length - i using Nat.strong_induction_on generalizing i with
  | _ n ih =>
    rw [findSyncLoop]
    split
    · rename_i hlt
      split
      · rename_i hnone
        rw [firstSync_of_find_none hnone, Option.map_none]
      · rename_i j hsome
        obtain ⟨hij, hjlt, hjb, hmin⟩ := find_eq_some_iff.mp hsome
        have hbefore : ∀ k < j - i, ¬SyncAt (data.drop i) k := fun k hk hsync ↦
          hmin (i + k) (by omega) (by omega) (syncAt_drop.mp hsync).head
        rw [confirmed_eq (by omega) hjb]
        by_cases hsync : SyncAt data j
        · rw [firstSync_of_confirmed hij hbefore hsync, decide_eq_true hsync, Option.map_some,
            Nat.add_sub_cancel' hij]
          rfl
        · rw [firstSync_of_rejected hij hbefore hsync, decide_eq_false hsync]
          have hlen : j < data.length := (List.getElem?_eq_some_iff.mp hjb).1
          exact ih (data.length - (j + 1)) (by omega) (j + 1) rfl
    · rename_i hge
      have hfirst : firstSync (data.drop i) = none := by
        refine firstSync_eq_none_iff.mpr fun j hj ↦ ?_
        have := (syncAt_drop.mp hj).lt_length
        omega
      rw [hfirst, Option.map_none]

/-- `_find_sync` raises nothing and is the first-match search on the suffix it starts on. -/
theorem findSync_eq (data : Bytes) (start : ℕ) :
    findSync data start = .ok ((firstSync (data.drop start)).map (start + ·)) :=
  findSyncLoop_eq data start

/-- The four positions a match is read at, with the last one in bounds. -/
theorem syncAt_iff {data : Bytes} {i : ℕ} :
    SyncAt data i ↔ i + 564 < data.length ∧ data[i]? = some 0x47 ∧ data[i + 188]? = some 0x47
      ∧ data[i + 376]? = some 0x47 ∧ data[i + 564]? = some 0x47 := by
  constructor
  · intro h
    exact ⟨h.lt_length, h.head, h 1 (by decide), h 2 (by decide), h 3 (by decide)⟩
  · rintro ⟨-, h0, h1, h2, h3⟩ k hk
    rw [syncConfirm] at hk
    interval_cases k
    · exact h0
    · exact h1
    · exact h2
    · exact h3

/-- The search from `start` on, in positions of the whole string. -/
theorem firstSync_drop_eq_some_iff {data : Bytes} {start i : ℕ} :
    (firstSync (data.drop start)).map (start + ·) = some i
      ↔ start ≤ i ∧ SyncAt data i ∧ ∀ j, start ≤ j → j < i → ¬SyncAt data j := by
  rw [Option.map_eq_some_iff]
  constructor
  · rintro ⟨k, hk, rfl⟩
    obtain ⟨hsync, hmin⟩ := firstSync_eq_some_iff.mp hk
    refine ⟨Nat.le_add_right start k, syncAt_drop.mp hsync, fun j hj hlt hsync' ↦ ?_⟩
    obtain ⟨l, rfl⟩ := Nat.exists_eq_add_of_le hj
    exact hmin l (Nat.lt_of_add_lt_add_left hlt) (syncAt_drop.mpr hsync')
  · rintro ⟨hle, hsync, hmin⟩
    obtain ⟨k, rfl⟩ := Nat.exists_eq_add_of_le hle
    refine ⟨k, firstSync_eq_some_iff.mpr ⟨syncAt_drop.mpr hsync, fun l hl hsync' ↦ ?_⟩, rfl⟩
    exact hmin (start + l) (Nat.le_add_right start l) (Nat.add_lt_add_left hl start)
      (syncAt_drop.mp hsync')

theorem firstSync_drop_eq_none_iff {data : Bytes} {start : ℕ} :
    (firstSync (data.drop start)).map (start + ·) = none
      ↔ ∀ i, start ≤ i → ¬SyncAt data i := by
  rw [Option.map_eq_none_iff, firstSync_eq_none_iff]
  constructor
  · intro h i hi hsync
    obtain ⟨k, rfl⟩ := Nat.exists_eq_add_of_le hi
    exact h k (syncAt_drop.mpr hsync)
  · intro h k hsync
    exact h (start + k) (Nat.le_add_right start k) (syncAt_drop.mp hsync)

/-- **`_find_sync` is the exact first-match search**: no index is out of range, and it returns the
least position from `start` on from which four sync bytes follow, or `-1` if there is none. -/
theorem findSync_exact (data : Bytes) (start : ℕ) :
    let Match (i : ℕ) : Prop := i + 564 < data.length ∧ data[i]? = some 0x47
      ∧ data[i + 188]? = some 0x47 ∧ data[i + 376]? = some 0x47 ∧ data[i + 564]? = some 0x47
    ∃ r, findSync data start = .ok r
      ∧ (∀ i, r = some i ↔ start ≤ i ∧ Match i ∧ ∀ j, start ≤ j → j < i → ¬Match j)
      ∧ (r = none ↔ ∀ i, start ≤ i → ¬Match i) := by
  refine ⟨_, findSync_eq data start, fun i ↦ ?_, ?_⟩
  · simp only [firstSync_drop_eq_some_iff, syncAt_iff]
  · simp only [firstSync_drop_eq_none_iff, syncAt_iff]

end Recdyud
