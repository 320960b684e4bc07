import Mathlib

/-!
# Block ciphers in ECB mode

A block cipher is a function on blocks of `n` elements; electronic-codebook mode applies it to one
block after the other. On data of whole blocks, ECB of a composition is the composition of the ECBs,
so decrypting with the inverse permutation gives the data back.
-/

variable {α : Type*} {n : ℕ}

/-- Apply `f` to each of the first `k` blocks. -/
def ecbBlocks (f : List.Vector α n → List.Vector α n) : ℕ → List α → List α
  | 0, _ => []
  | k + 1, data =>
    if h : n ≤ data.length then
      (f ⟨data.take n, List.length_take_of_le h⟩).toList ++ ecbBlocks f k (data.drop n)
    else
      []

/-- Apply `f` blockwise. An incomplete last block is left out. -/
def ecb (f : List.Vector α n → List.Vector α n) (data : List α) : List α :=
  ecbBlocks f (data.length / n) data

theorem ecb_of_le (f : List.Vector α n → List.Vector α n) {data : List α} (hn : 0 < n)
    (h : n ≤ data.length) :
    ecb f data = (f ⟨data.take n, List.length_take_of_le h⟩).toList ++ ecb f (data.drop n) := by
  rw [ecb, Nat.div_eq_sub_div hn h, ecbBlocks, dif_pos h, ecb, List.length_drop]

theorem ecb_nil (f : List.Vector α n → List.Vector α n) : ecb f [] = [] := by
  rw [ecb, List.length_nil, Nat.zero_div, ecbBlocks]

/-- Induction on the number of blocks. -/
theorem blocks_induction {P : List α → Prop} (hnil : P [])
    (hcons : ∀ data : List α, n ≤ data.length → n ∣ data.length → P (data.drop n) → P data)
    {data : List α} (h : n ∣ data.length) : P data := by
  obtain ⟨k, hk⟩ := h
  induction k generalizing data with
  | zero => rwa [List.length_eq_zero_iff.mp (hk.trans (Nat.mul_zero n))]
  | succ k ih =>
    rw [Nat.mul_succ] at hk
    refine hcons data (by omega) ⟨k + 1, by rw [hk, Nat.mul_succ]⟩ (ih ?_)
    rw [List.length_drop]
    omega

theorem length_ecb (hn : 0 < n) (f : List.Vector α n → List.Vector α n) {data : List α}
    (h : n ∣ data.length) : (ecb f data).length = data.length := by
  refine blocks_induction (P := fun data ↦ (ecb f data).length = data.length) ?_ ?_ h
  · rw [ecb_nil]
  · intro data hle _ ih
    rw [ecb_of_le f hn hle, List.length_append, ih, List.length_drop, List.Vector.toList_length]
    omega

/-- Two passes are one. -/
theorem ecb_ecb (hn : 0 < n) (g f : List.Vector α n → List.Vector α n) {data : List α}
    (h : n ∣ data.length) : ecb g (ecb f data) = ecb (g ∘ f) data := by
  refine blocks_induction (P := fun data ↦ ecb g (ecb f data) = ecb (g ∘ f) data) ?_ ?_ h
  · rw [ecb_nil, ecb_nil, ecb_nil]
  · intro data hle _ ih
    set block := f ⟨data.take n, List.length_take_of_le hle⟩ with hblock
    have hlen : n ≤ (block.toList ++ ecb f (data.drop n)).length := by
      rw [List.length_append, List.Vector.toList_length]
      exact Nat.le_add_right _ _
    have htake : (block.toList ++ ecb f (data.drop n)).take n = block.toList :=
      List.take_left' block.toList_length
    have hdrop : (block.toList ++ ecb f (data.drop n)).drop n = ecb f (data.drop n) :=
      List.drop_left' block.toList_length
    rw [ecb_of_le f hn hle, ← hblock, ecb_of_le g hn hlen, hdrop, ih, ecb_of_le _ hn hle]
    refine congrArg (fun b ↦ (g b).toList ++ _) ?_
    exact Subtype.ext htake

theorem ecb_id (hn : 0 < n) {data : List α} (h : n ∣ data.length) :
    ecb (id : List.Vector α n → List.Vector α n) data = data := by
  refine blocks_induction (P := fun data ↦ ecb (id : List.Vector α n → _) data = data) ?_ ?_ h
  · exact ecb_nil _
  · intro data hle _ ih
    rw [ecb_of_le _ hn hle, ih]
    exact List.take_append_drop n data

/-- **Decryption** with the inverse permutation. -/
theorem ecb_symm_ecb (hn : 0 < n) (f : Equiv.Perm (List.Vector α n)) {data : List α}
    (h : n ∣ data.length) : ecb f.symm (ecb f data) = data := by
  rw [ecb_ecb hn _ _ h, Equiv.symm_comp_self, ecb_id hn h]
