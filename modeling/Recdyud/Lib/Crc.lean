import Mathlib

/-!
# Cyclic redundancy checks

A register of `w` bits is shifted up once for each bit of the message: the bit goes in at the top,
and what falls out decides whether the polynomial is subtracted. Everything is linear in exclusive
or, and with a polynomial whose lowest bit is set a shift can be undone.

A message of at most `w` bits therefore acts like one word, given by its bits from the top
(`run_eq_iterate_word`), and it brings the register to zero only if it is what the register holds
(`run_eq_zero_iff`). That is the residue law, and it is why a burst of at most `w` bits never goes
unnoticed (`run_ne_zero_of_burst`).
-/

namespace Crc

variable {w : ℕ} (poly : BitVec w)

/-- Shift the register up by one bit. -/
def step (c : BitVec w) : BitVec w := if c.msb then (c <<< 1) ^^^ poly else c <<< 1

/-- A bit at the top of a word. -/
def top (b : Bool) : BitVec w := if b then BitVec.intMin w else 0

/-- Take in one bit of the message. -/
def feed (c : BitVec w) (b : Bool) : BitVec w := step poly (c ^^^ top b)

/-- Take in a message. -/
def run (c : BitVec w) (bits : List Bool) : BitVec w := bits.foldl (feed poly) c

/-- The bits as a word, from the top. -/
def word : List Bool → BitVec w
  | [] => 0
  | b :: bits => top b ^^^ (word bits >>> 1)

/-! ## Linearity -/

theorem step_zero : step poly 0 = 0 := by
  simp [step]

theorem step_of_msb_eq_false {c : BitVec w} (h : c.msb = false) : step poly c = c <<< 1 := by
  rw [step, h, if_neg Bool.false_ne_true]

theorem step_xor (a b : BitVec w) : step poly (a ^^^ b) = step poly a ^^^ step poly b := by
  simp only [step, BitVec.msb_xor, BitVec.shiftLeft_xor_distrib]
  cases a.msb <;> cases b.msb
  · rfl
  · simp [BitVec.xor_assoc]
  · simp only [Bool.bne_false, if_true, Bool.false_eq_true, if_false]
    rw [BitVec.xor_assoc, BitVec.xor_assoc, BitVec.xor_comm poly]
  · simp only [bne_self_eq_false, Bool.false_eq_true, if_false, if_true]
    -- the polynomial is subtracted twice
    rw [BitVec.xor_assoc, ← BitVec.xor_assoc poly, BitVec.xor_comm poly, BitVec.xor_assoc,
      BitVec.xor_self, BitVec.xor_zero]

theorem iterate_step_xor (n : ℕ) (a b : BitVec w) :
    (step poly)^[n] (a ^^^ b) = (step poly)^[n] a ^^^ (step poly)^[n] b := by
  induction n generalizing a b with
  | zero => rfl
  | succ n ih => rw [Function.iterate_succ_apply, step_xor, ih, ← Function.iterate_succ_apply,
      ← Function.iterate_succ_apply]

/-- While nothing falls out, the register just moves up. -/
theorem iterate_step_of_clear {n : ℕ} {c : BitVec w} (h : ∀ i < n, c.getMsbD i = false) :
    (step poly)^[n] c = c <<< n := by
  induction n generalizing c with
  | zero => simp
  | succ n ih =>
    rw [Function.iterate_succ_apply, step_of_msb_eq_false poly (h 0 (Nat.succ_pos n)), ih,
      ← BitVec.shiftLeft_add, Nat.add_comm 1]
    intro i hi
    rw [BitVec.getMsbD_shiftLeft]
    exact h (i + 1) (by omega)

@[simp] theorem top_false : top false = (0 : BitVec w) := rfl

theorem top_xor (a b : Bool) : (top (a ^^ b) : BitVec w) = top a ^^^ top b := by
  cases a <;> cases b <;> simp [top]

theorem feed_false (c : BitVec w) : feed poly c false = step poly c := by
  simp [feed]

theorem feed_xor (c d : BitVec w) (a b : Bool) :
    feed poly (c ^^^ d) (a ^^ b) = feed poly c a ^^^ feed poly d b := by
  rw [feed, top_xor, feed, feed, ← step_xor]
  congr 1
  rw [BitVec.xor_assoc, ← BitVec.xor_assoc d, BitVec.xor_comm d, BitVec.xor_assoc,
    BitVec.xor_assoc]

@[simp] theorem run_nil (c : BitVec w) : run poly c [] = c := rfl

theorem run_cons (c : BitVec w) (b : Bool) (bits : List Bool) :
    run poly c (b :: bits) = run poly (feed poly c b) bits := rfl

theorem run_append (c : BitVec w) (s t : List Bool) :
    run poly c (s ++ t) = run poly (run poly c s) t := List.foldl_append ..

/-- **Linearity**: the register of a sum of messages of one length is the sum of the registers. -/
theorem run_xor (c d : BitVec w) {s t : List Bool} (h : s.length = t.length) :
    run poly (c ^^^ d) (List.zipWith xor s t) = run poly c s ^^^ run poly d t := by
  induction s generalizing c d t with
  | nil =>
    rw [List.eq_nil_of_length_eq_zero h.symm]
    rfl
  | cons a s ih =>
    cases t with
    | nil => cases h
    | cons b t =>
      rw [List.zipWith_cons_cons, run_cons, feed_xor, ih _ _ (Nat.succ.inj h), ← run_cons,
        ← run_cons]

/-! ## Words -/

theorem getMsbD_top (b : Bool) (i : ℕ) :
    (top b : BitVec w).getMsbD i = (decide (0 < w) && decide (i = 0) && b) := by
  cases b
  · simp
  · rw [top, if_pos rfl, BitVec.getMsbD_intMin]
    simp

/-- The bit of the message only meets the bit that falls out. -/
theorem feed_eq (c : BitVec w) (b : Bool) :
    feed poly c b = if c.msb ^^ b then (c <<< 1) ^^^ poly else c <<< 1 := by
  rcases Nat.eq_zero_or_pos w with rfl | hw
  · exact Subsingleton.elim _ _
  have hmsb : (c ^^^ top b).msb = (c.msb ^^ b) := by
    rw [BitVec.msb_xor, BitVec.msb_eq_getMsbD_zero (top b), getMsbD_top]
    simp [hw]
  have hshift : (c ^^^ top b) <<< 1 = c <<< 1 := by
    refine BitVec.eq_of_getMsbD_eq fun i hi ↦ ?_
    simp [getMsbD_top]
  rw [feed, step, hmsb, hshift]

/-- The word of at most `w` bits holds them in order. -/
theorem getMsbD_word (bits : List Bool) (i : ℕ) :
    (word bits : BitVec w).getMsbD i = (decide (i < w) && bits.getD i false) := by
  induction bits generalizing i with
  | nil => simp [word]
  | cons b bits ih =>
    rw [word, BitVec.getMsbD_xor, getMsbD_top, BitVec.getMsbD_ushiftRight, ih]
    cases i with
    | zero => simp
    | succ i =>
      rw [List.getD_cons_succ]
      by_cases hi : i + 1 < w
      · simp [hi, Nat.lt_of_succ_lt hi]
      · simp [hi]

theorem word_injective {s t : List Bool} (h : s.length = t.length) (hw : s.length ≤ w)
    (heq : (word s : BitVec w) = word t) : s = t := by
  refine List.ext_getElem h fun i hs ht ↦ ?_
  have hbit := congrArg (fun x ↦ BitVec.getMsbD x i) heq
  have hi : i < w := by omega
  simpa [getMsbD_word, hi, hs, ht] using hbit

theorem word_replicate_false (n : ℕ) : (word (List.replicate n false) : BitVec w) = 0 := by
  induction n with
  | zero => rfl
  | succ n ih => rw [List.replicate_succ, word, ih]; simp

/-- A word of fewer than `w` bits can be moved up again. -/
theorem step_word_ushiftRight {bits : List Bool} (h : bits.length < w) :
    step poly (word bits >>> 1) = word bits := by
  rw [step_of_msb_eq_false]
  · refine BitVec.eq_of_getMsbD_eq fun i hi ↦ ?_
    rw [BitVec.getMsbD_shiftLeft, BitVec.getMsbD_ushiftRight, Nat.add_sub_cancel]
    rcases Nat.lt_or_ge (i + 1) w with hlt | hge
    · simp [hlt]
    · rw [getMsbD_word, List.getD_eq_default _ _ (by omega)]
      simp
  · rw [BitVec.msb_ushiftRight]
    simp

/-- **At most `w` bits act like one word**: they could as well have been put in at once. -/
theorem run_eq_iterate_word (c : BitVec w) {bits : List Bool} (h : bits.length ≤ w) :
    run poly c bits = (step poly)^[bits.length] (c ^^^ word bits) := by
  induction bits generalizing c with
  | nil => simp [word]
  | cons b bits ih =>
    rw [List.length_cons] at h ⊢
    rw [run_cons, ih _ (by omega), Function.iterate_succ_apply, word, ← BitVec.xor_assoc, step_xor,
      step_word_ushiftRight poly (by omega), feed]

/-! ## What brings the register to zero -/

section Residue

variable {poly} (hpoly : poly.getLsbD 0 = true)
include hpoly

/-- **The shift can be undone**: the lowest bit tells whether the polynomial was subtracted. -/
theorem step_eq_zero_iff {c : BitVec w} : step poly c = 0 ↔ c = 0 := by
  constructor
  · intro h
    have hw : 0 < w := by
      rcases Nat.eq_zero_or_pos w with rfl | hw
      · simp at hpoly
      · exact hw
    cases hmsb : c.msb with
    | true =>
      have hbit := congrArg (fun x ↦ BitVec.getLsbD x 0) h
      simp [step, hmsb, hpoly] at hbit
    | false =>
      rw [step_of_msb_eq_false poly hmsb] at h
      refine BitVec.eq_of_getMsbD_eq fun i hi ↦ ?_
      cases i with
      | zero => rw [← BitVec.msb, hmsb]; simp
      | succ i =>
        have hbit := congrArg (fun x ↦ BitVec.getMsbD x i) h
        rw [BitVec.getMsbD_shiftLeft] at hbit
        simpa [Nat.lt_of_succ_lt hi] using hbit
  · rintro rfl
    exact step_zero poly

theorem iterate_step_eq_zero_iff (n : ℕ) {c : BitVec w} : (step poly)^[n] c = 0 ↔ c = 0 := by
  induction n generalizing c with
  | zero => rfl
  | succ n ih => rw [Function.iterate_succ_apply, ih, step_eq_zero_iff hpoly]

/-- **The residue law**: at most `w` bits bring the register to zero exactly when they are what it
holds. -/
theorem run_eq_zero_iff {c : BitVec w} {bits : List Bool} (h : bits.length ≤ w) :
    run poly c bits = 0 ↔ c = word bits := by
  rw [run_eq_iterate_word poly c h, iterate_step_eq_zero_iff hpoly]
  exact BitVec.xor_eq_zero_iff

theorem run_replicate_false_eq_zero_iff {c : BitVec w} (n : ℕ) :
    run poly c (List.replicate n false) = 0 ↔ c = 0 := by
  induction n generalizing c with
  | zero => rfl
  | succ n ih => rw [List.replicate_succ, run_cons, ih, feed_false, step_eq_zero_iff hpoly]

/-- A message of zeros but for a window of at most `w` bits, and not all zeros, does not leave an
empty register empty. -/
theorem run_ne_zero_of_window {window : List Bool} (hw : window.length ≤ w)
    (hne : true ∈ window) (before after : ℕ) :
    run poly 0 (List.replicate before false ++ window ++ List.replicate after false) ≠ 0 := by
  rw [run_append, run_append, Ne, run_replicate_false_eq_zero_iff hpoly,
    (run_replicate_false_eq_zero_iff hpoly before).mpr rfl, run_eq_zero_iff hpoly hw]
  intro hword
  have hzero : window = List.replicate window.length false :=
    word_injective (w := w) List.length_replicate.symm hw
      (by rw [← hword, word_replicate_false])
  rw [hzero] at hne
  exact Bool.noConfusion (List.eq_of_mem_replicate hne)

/-- **A burst is noticed**: two messages of one length that differ, but only inside a window of `w`
bits, leave different registers. -/
theorem run_ne_of_burst {s t : List Bool} (c : BitVec w) {k : ℕ} (hlen : s.length = t.length)
    (hne : s ≠ t) (hburst : ∀ i, i < k ∨ k + w ≤ i → s[i]? = t[i]?) :
    run poly c s ≠ run poly c t := by
  set d := List.zipWith xor s t with hd
  have hbits (i : ℕ) (hi : i < d.length) : d[i] = true → k ≤ i ∧ i < k + w := by
    intro htrue
    by_contra hout
    have his : i < s.length := by simp [hd] at hi; omega
    have hit : i < t.length := by omega
    have heq := hburst i (by omega)
    rw [List.getElem?_eq_getElem his, List.getElem?_eq_getElem hit] at heq
    simp [hd, Option.some.inj heq] at htrue
  have hfalse {l : List Bool} (h : ∀ i (hi : i < l.length), l[i] = true → False) :
      l = List.replicate l.length false := by
    refine List.eq_replicate_iff.mpr ⟨rfl, fun b hb ↦ ?_⟩
    obtain ⟨i, hi, rfl⟩ := List.mem_iff_getElem.mp hb
    exact Bool.eq_false_iff.mpr (h i hi)
  -- the difference is zero in front of the window and behind it
  have hfront : d.take k = List.replicate (d.take k).length false := by
    refine hfalse fun i hi ↦ ?_
    rw [List.getElem_take]
    intro htrue
    have := hbits i _ htrue
    rw [List.length_take] at hi
    omega
  have hback : (d.drop k).drop w = List.replicate ((d.drop k).drop w).length false := by
    refine hfalse fun i hi ↦ ?_
    rw [List.getElem_drop, List.getElem_drop]
    intro htrue
    have := hbits _ _ htrue
    omega
  have hsplit : d = List.replicate (d.take k).length false ++ (d.drop k).take w
      ++ List.replicate ((d.drop k).drop w).length false := by
    rw [← hfront, ← hback, List.append_assoc, List.take_append_drop, List.take_append_drop]
  have hmem : true ∈ (d.drop k).take w := by
    by_contra hnot
    refine hne (List.ext_getElem hlen fun i his hit ↦ ?_)
    have hi : i < d.length := by simp [hd]; omega
    have hzero : d[i] = false := by
      refine Bool.eq_false_iff.mpr fun htrue ↦ hnot ?_
      obtain ⟨hk, hkw⟩ := hbits i hi htrue
      refine List.mem_iff_getElem.mpr ⟨i - k, by simp; omega, ?_⟩
      rw [List.getElem_take, List.getElem_drop]
      simpa [Nat.add_sub_cancel' hk] using htrue
    simpa [hd] using hzero
  intro heq
  have hzero : run poly 0 d = 0 := by
    have := run_xor poly c c hlen
    rwa [BitVec.xor_self, heq, BitVec.xor_self] at this
  rw [hsplit] at hzero
  exact run_ne_zero_of_window hpoly (by rw [List.length_take]; exact min_le_left _ _) hmem _ _ hzero

end Residue

end Crc
